import Mathlib.Data.List.Pairwise
import ScaleQueue.Rejections

/-!
# Requests to create a job

Any number of requests of `POST /jobs` run at once, with everything else that the
system does. A job is under the request key of the request that created it for good,
and the index on the key lets no other job be under it (`Tables.requestKey_unique`); so
a request that finds its key taken is given the job that took it, or refused, by the
digests of the two inputs.

`Asks` says how far a request has come, and what is in the tables by then; `Enqueued`
says it of every request of a run, and where the rows and the transactions of these
requests come from.
-/

namespace ScaleQueue

open Locking

/-! ## The row of a request -/

/-- The row is under the request key of the job, and carries the digest of its input. -/
structure JobRow.Carries (r : JobRow) (j : NewJob) : Prop where
  requestKey : r.requestKey = j.request.map Prod.fst
  requestHash : r.requestHash = j.request.map Prod.snd

theorem JobRow.Carries.precedes {r r' : JobRow} {j : NewJob} (h : r.Carries j)
    (h' : r.Precedes r') : r'.Carries j :=
  ⟨h'.requestKey.trans h.requestKey, h'.requestHash.trans h.requestHash⟩

theorem JobRow.Precedes.carries {r r' : JobRow} {j : NewJob} (h' : r.Precedes r')
    (h : r'.Carries j) : r.Carries j :=
  ⟨h'.requestKey.symm.trans h.requestKey, h'.requestHash.symm.trans h.requestHash⟩

/-- At most one row is under a request key. -/
theorem Tables.requestKey_unique {t : Tables} {r r' : JobRow} {k : Text} (hr : r ∈ t.jobs)
    (hr' : r' ∈ t.jobs) (h : r.requestKey = some k) (h' : r'.requestKey = some k) : r = r' := by
  by_contra hne
  have hsymm : Std.Symm fun r r' : JobRow =>
      ∀ k, r.requestKey = some k → ∀ k', r'.requestKey = some k' → k ≠ k' :=
    ⟨fun _ _ hd k hk k' hk' => (hd k' hk' k hk).symm⟩
  exact (List.pairwise_filterMap.1 t.idxRequestKey).forall hr hr' hne k h k h' rfl

/-- The tables `t'` are `t` with a new job, one entry of the audit log, and one row of the
    outbox. -/
structure Creates (j : NewJob) (t t' : Tables) : Prop where
  before : t.view j.id = ⟨none, [], []⟩
  after : ∃ t₁ t₂ t₃ n m, t'.view j.id = ⟨some (j.row t₁),
    [⟨n, j.id, none, .pending, "Job created", none, seconds t₂⟩], [⟨m, ⟨j.id, 1, 1⟩, t₃, none⟩]⟩

theorem Change.creates {lease : ℕ} {id : JobId} {lo hi : Env} {j : NewJob} {a : Answer}
    {t t' : Tables} (h : Change lease id lo hi (.createJob j) a (t.view id) (t'.view id))
    (hsound : (t.view id).Sound) : j.id = id ∧ a = .done ∧ Creates j t t' := by
  suffices hc : j.id = id ∧ a = .done ∧ t.view id = ⟨none, [], []⟩ ∧ ∃ t₁ t₂ t₃ n m,
      t'.view id = ⟨some (j.row t₁), [⟨n, id, none, .pending, "Job created", none, seconds t₂⟩],
        [⟨m, ⟨id, 1, 1⟩, t₃, none⟩]⟩ by
    obtain ⟨rfl, ha, hbefore, hafter⟩ := hc
    exact ⟨rfl, ha, hbefore, hafter⟩
  generalize t.view id = v at h hsound ⊢
  generalize t'.view id = v' at h ⊢
  cases h with
  | created hj =>
    obtain ⟨rfl, rfl⟩ := hsound.absent rfl
    exact ⟨hj, rfl, rfl, _, _, _, _, _, rfl⟩

/-- A row was there before the change, or the change has created its job. -/
theorem Change.born {lease : ℕ} {id : JobId} {lo hi : Env} {op : Op} {a : Answer}
    {v v' : JobView} {r' : JobRow} (h : Change lease id lo hi op a v v') (hr' : v'.row = some r') :
    (∃ r, v.row = some r ∧ r.Precedes r') ∨ ∃ j, op = .createJob j := by
  cases hr : v.row with
  | some r =>
    obtain ⟨r'', hr'', hprec⟩ := h.ages r hr
    obtain rfl := Option.some.inj (hr'.symm.trans hr'')
    exact .inl ⟨r, rfl, hprec⟩
  | none =>
    cases h with
    | created => exact .inr ⟨_, rfl⟩
    | published => cases hr.symm.trans hr'
    | _ => cases hr

theorem Creates.row {j : NewJob} {t t' : Tables} (h : Creates j t t') :
    t.job? j.id = none ∧ ∃ r, t'.job? j.id = some r ∧ r.Carries j := by
  obtain ⟨t₁, _, _, _, _, hafter⟩ := h.after
  exact ⟨congrArg JobView.row h.before, j.row t₁, congrArg JobView.row hafter, rfl, rfl⟩

section Steps

variable {cfg : Config} {s s' : State} {es : List Event} {a : Action}

/-- A job stays, and its request with it. -/
theorem Stepped.ages (h : Stepped cfg s a s' es) (hk : Kept cfg s.mysql) (id : JobId) :
    Ages (s.mysql.store.job? id) (s'.mysql.store.job? id) := by
  rw [← Tables.view_row, ← Tables.view_row]
  obtain ⟨heq, -⟩ | ⟨_, _, _, _, _, _, _, -, -, hchange, -⟩ := h.view hk id
  · rw [heq]
    exact .refl _
  · exact hchange.ages

/-- The commit that creates a job. -/
theorem Stepped.creates {sid : Sid} {how : Closing} {db : MySQL} {j : NewJob} {b : Answer}
    (h : Stepped cfg s (.close sid how) s' es) (hk : Kept cfg s.mysql)
    (hclose : s.mysql.close sid how = some (db, .committed (.createJob j) b)) :
    b = .done ∧ Creates j s.mysql.store s'.mysql.store := by
  obtain ⟨db', c, hclose', -, hstore⟩ := h.closing
  obtain ⟨rfl, rfl⟩ := Prod.mk.inj (Option.some.inj (hclose.symm.trans hclose'))
  obtain ⟨-, hno, -⟩ | ⟨id, lo, hi, hchange, -⟩ := hk.commit hclose
  · cases hno
  · rw [hstore]
    exact (hchange.creates (hk.sound id)).2

/-- A row was there before the step, or the step has created its job. -/
theorem Stepped.born (h : Stepped cfg s a s' es) (hk : Kept cfg s.mysql) {id : JobId}
    {r' : JobRow} (hr' : s'.mysql.store.job? id = some r') :
    (∃ r, s.mysql.store.job? id = some r ∧ r.Precedes r') ∨
    ∃ sid how db j, a = .close sid how ∧ j.id = id ∧
      s.mysql.close sid how = some (db, .committed (.createJob j) .done) ∧
      Creates j s.mysql.store s'.mysql.store := by
  obtain ⟨heq, -⟩ | ⟨sid, how, db, op, b, lo, hi, rfl, hclose, hchange, -⟩ := h.view hk id
  · refine .inl ⟨r', ?_, .refl _⟩
    rw [← Tables.view_row, ← heq, Tables.view_row, hr']
  · obtain hold | ⟨j, rfl⟩ := hchange.born hr'
    · exact .inl hold
    · obtain ⟨hid, rfl, hcreates⟩ := hchange.creates (hk.sound id)
      exact .inr ⟨sid, how, db, j, rfl, hid, hclose, hcreates⟩

end Steps

/-! ## Requests -/

/-- A request of `POST /jobs` whose `Idempotency-Key` is accepted, and the id drawn for its
    job. -/
structure Post where
  call : ℕ
  clientId : Text
  header : Option Text
  input : CreateJobInput
  id : JobId
  key : Option Text
  key_eq : requestKeyOf clientId header = some key

/-- The request comes in. -/
def Post.action (p : Post) : Action := .createJob p.call p.clientId p.header p.input p.id

/-- The job that the request is to create. -/
def Post.job (cfg : Config) (p : Post) : NewJob := newJob cfg p.input p.id p.key

/-- The request was answered with the job. -/
def Post.Accepted (p : Post) (s : State) (r : JobRow) : Prop :=
  s.calls p.call = some (.answered (.accepted r))

/-- The request has created its job, or was answered with one. -/
def Post.Took (p : Post) (s : State) : Prop :=
  (s.mysql.store.job? p.id).isSome ∨ ∃ r, p.Accepted s r

/-- The call of `createJob` that comes in, if its key is accepted. -/
def Action.post? : Action → Option Post
  | .createJob c clientId header input id =>
    match h : requestKeyOf clientId header with
    | some key => some ⟨c, clientId, header, input, id, key, h⟩
    | none => none
  | _ => none

/-- The requests that came in. -/
def posts (acts : List Action) : List Post := acts.filterMap Action.post?

/-- A run of the system from `s₀`, with its actions, oldest first. -/
inductive Played (cfg : Config) (s₀ : State) : List Action → List Event → State → Prop
  | refl : Played cfg s₀ [] [] s₀
  | step {acts : List Action} {es es' : List Event} {s s' : State} {a : Action}
      (h : Played cfg s₀ acts es s) (hs : s.step cfg a = some (s', es')) :
      Played cfg s₀ (acts ++ [a]) (es ++ es') s'

/-- A statement of the call failed: it got an error, or lost its connection. -/
def Failed (c : ℕ) (acts : List Action) : Prop :=
  ∃ sid : Sid, sid.party = .call c ∧ (.close sid .fail ∈ acts ∨ .giveUp sid ∈ acts)

/-- The calls of `JobService.createJob`. -/
def called (es : List Event) : List (ℕ × NewJob) :=
  es.filterMap fun | .called c j => some (c, j) | _ => none

/-- The ids that `uuidv4` returned are new. -/
structure NewIds (s₀ : State) (es : List Event) : Prop where
  distinct : ((called es).map (·.2.id)).Nodup
  absent : ∀ c j, (c, j) ∈ called es → s₀.mysql.store.job? j.id = none

/-- A step of the run has created the job. -/
def Created (cfg : Config) (s₀ : State) (acts : List Action) (j : NewJob) : Prop :=
  ∃ acts₁ a acts₂ es₁ s₁ es₂ s₂, acts = acts₁ ++ a :: acts₂ ∧ Played cfg s₀ acts₁ es₁ s₁ ∧
    s₁.step cfg a = some (s₂, es₂) ∧ Creates j s₁.mysql.store s₂.mysql.store

/-- The query `op` of a session finds a row, or has found one. -/
def State.Looks (s : State) (sid : Sid) (op : Op) : Prop :=
  (op.reads s.mysql.store).isSome ∧ ∃ y, s.mysql.sessions sid = some y ∧ y.op = op ∧
    (y.rest = (.read fun _ t => .commit (.row (op.reads t))) ∨
      ∃ q, y.rest = .commit (.row (some q)))

/-- How far a call that is to create `j` has come; `failed` if a statement of it failed. -/
inductive Asks (s : State) (failed : Prop) (j : NewJob) : Call → Prop
  | creating {sid : Sid} : Asks s failed j (.creating j sid)
  | fetching {sid : Sid} {q : JobRow} (hq : s.mysql.store.job? j.id = some q) (hcar : q.Carries j)
      (hlook : s.Looks sid (.selectById j.id)) : Asks s failed j (.fetching j sid)
  | resolving {sid : Sid} {h hash : Text} (hj : j.request = some (h, hash))
      (hlook : s.Looks sid (.selectByRequestKey h)) : Asks s failed j (.resolving j sid)
  | accepted {r q : JobRow} (hq : s.mysql.store.job? r.id = some q) (hprec : r.Precedes q)
      (hcar : r.Carries j) (hown : j.request = none → r.id = j.id) :
      Asks s failed j (.answered (.accepted r))
  | conflict (hj : j.request ≠ none) : Asks s failed j (.answered .conflict)
  | failed (h : failed) : Asks s failed j (.answered .internal)

/-- What holds of all requests of a run. -/
structure Enqueued (cfg : Config) (s₀ : State) (acts : List Action) (es : List Event)
    (s : State) : Prop where
  asks : ∀ c j, (c, j) ∈ called es → ∃ x, s.calls c = some x ∧ Asks s (Failed c acts) j x
  /-- A job is not there before its transaction commits. -/
  opens : ∀ sid y j, s.mysql.sessions sid = some y → y.op = .createJob j →
    (∃ c, (c, j) ∈ called es) ∧ s.mysql.store.job? j.id = none
  /-- A job has one transaction. -/
  unique : ∀ sid sid' y y' j j', s.mysql.sessions sid = some y → s.mysql.sessions sid' = some y' →
    y.op = .createJob j → y'.op = .createJob j' → j.id = j'.id → sid = sid'
  /-- A job was there from the start, or was created by a request. -/
  rows : ∀ id r, s.mysql.store.job? id = some r →
    (∃ r₀, s₀.mysql.store.job? id = some r₀ ∧ r₀.Precedes r) ∨
    ∃ c j, (c, j) ∈ called es ∧ j.id = id ∧ r.Carries j ∧ Created cfg s₀ acts j
  committed : ∀ sid j a, .closed sid (.committed (.createJob j) a) ∈ es →
    ∃ r, s.mysql.store.job? j.id = some r ∧ r.Carries j

section Steps

variable {cfg : Config} {s₀ s s' : State} {acts acts' : List Action} {es es' : List Event}
  {a : Action} {j : NewJob} {c : ℕ} {sid : Sid}

theorem Played.run (h : Played cfg s₀ acts es s) : Run cfg s₀ es s := by
  induction h with
  | refl => exact .refl
  | step _ hs ih => exact ih.step hs

@[simp] theorem called_append : called (es ++ es') = called es ++ called es' :=
  List.filterMap_append

theorem mem_called : (c, j) ∈ called es ↔ .called c j ∈ es := by
  simp only [called, List.mem_filterMap]
  constructor
  · rintro ⟨e, he, h⟩
    cases e <;> simp_all
  · exact fun h => ⟨_, h, rfl⟩

theorem NewIds.inj (h : NewIds s₀ es) {c' : ℕ} {j' : NewJob} (hj : (c, j) ∈ called es)
    (hj' : (c', j') ∈ called es) (hid : j.id = j'.id) : c = c' ∧ j = j' :=
  Prod.mk.inj (List.inj_on_of_nodup_map h.distinct hj hj' hid)

theorem NewIds.left (h : NewIds s₀ (es ++ es')) : NewIds s₀ es where
  distinct := by
    have hn := h.distinct
    rw [called_append, List.map_append] at hn
    exact hn.of_append_left
  absent c j hj := h.absent c j (called_append ▸ List.mem_append_left _ hj)

/-- The id of a new request is none of those drawn before. -/
theorem NewIds.fresh (h : NewIds s₀ (es ++ es')) {c' : ℕ} {j' : NewJob} (hj : (c, j) ∈ called es)
    (hj' : (c', j') ∈ called es') : j'.id ≠ j.id := by
  have hn := h.distinct
  rw [called_append, List.map_append] at hn
  exact fun heq => List.disjoint_of_nodup_append hn (List.mem_map_of_mem hj)
    (heq ▸ List.mem_map_of_mem hj')

theorem Failed.mono (h : Failed c acts) : Failed c (acts ++ acts') := by
  obtain ⟨sid, hsid, hmem⟩ := h
  exact ⟨sid, hsid, hmem.imp (List.mem_append_left _) (List.mem_append_left _)⟩

theorem Created.mono (h : Created cfg s₀ acts j) : Created cfg s₀ (acts ++ acts') j := by
  obtain ⟨acts₁, a, acts₂, es₁, s₁, es₂, s₂, rfl, h⟩ := h
  exact ⟨acts₁, a, acts₂ ++ acts', es₁, s₁, es₂, s₂, by simp, h⟩

/-- The calls of `createJob` in a step. -/
theorem Stepped.calling (h : Stepped cfg s a s' es) :
    called es = [] ∨ ∃ c clientId header key input id,
      a = .createJob c clientId header input id ∧ s.calls c = none ∧
      requestKeyOf clientId header = some key ∧ called es = [(c, newJob cfg input id key)] := by
  have quiet {es : List Event} (he : ∀ c j, .called c j ∉ es) : called es = [] :=
    List.eq_nil_iff_forall_not_mem.2 fun x hx => he x.1 x.2 (mem_called.1 hx)
  have delivered {sid : Sid} {t : State} {b : Option Answer} {es : List Event}
      (hd : Delivered cfg t sid b s' es) : ∀ c j, .called c j ∉ es := by
    intro c j hmem
    cases hd with
    | nobody => cases hmem
    | worker _ _ hx => cases (returned_cases hx).worker _ hmem
    | dispatcher => cases hmem
    | call _ _ _ hp =>
      obtain ⟨r, hr⟩ := proceed_responds hp _ hmem
      cases hr
  cases h with
  | close _ hd =>
    refine .inl (quiet fun c j hmem => ?_)
    obtain heq | hmem := List.mem_cons.1 hmem
    · cases heq
    · exact delivered hd c j hmem
  | giveUp _ hd => exact .inl (quiet (delivered hd))
  | worker _ _ hx =>
    refine .inl (quiet fun c j hmem => ?_)
    cases (act_cases hx).worker _ hmem
  | createJob hc hkey => exact .inr ⟨_, _, _, _, _, _, rfl, hc, hkey, rfl⟩
  | _ => exact .inl rfl

/-- A call stays as it is until its query has ended, or its client gave it up. -/
theorem Stepped.proceeds (h : Stepped cfg s a s' es) {x : Call} (hx : s.calls c = some x) :
    s'.calls c = some x ∨ ∃ sid b x' fx, sid.party = .call c ∧ x.session? = some sid ∧
      Call.proceed s.opened c x b = (x', fx) ∧ s'.calls c = some x' ∧
      ((∃ how db k, a = .close sid how ∧ s.mysql.close sid how = some (db, k) ∧ b = answerOf k ∧
          s'.mysql = (State.affect cfg { s with mysql := db } fx).mysql) ∨
        a = .giveUp sid ∧ b = none) := by
  have delivered {sid : Sid} {t : State} {b : Option Answer} {es : List Event}
      (hd : Delivered cfg t sid b s' es) (ht : t.calls = s.calls) :
      s'.calls c = some x ∨ ∃ x' fx, sid.party = .call c ∧ x.session? = some sid ∧
        Call.proceed t.opened c x b = (x', fx) ∧ s'.calls c = some x' ∧
        s'.mysql = (t.affect cfg fx).mysql := by
    rw [← ht] at hx
    cases hd with
    | nobody => exact .inl hx
    | worker => exact .inl hx
    | dispatcher => exact .inl hx
    | @call c' y x' fx hparty hy hsid hp =>
      by_cases hc : c' = c
      · subst hc
        obtain rfl := Option.some.inj (hx.symm.trans hy)
        exact .inr ⟨x', fx, hparty, hsid, hp, Function.update_self .., rfl⟩
      · exact .inl ((Function.update_of_ne (Ne.symm hc) ..).trans hx)
  have other {c' : ℕ} {x' : Call} {t : State} (hc : s.calls c' = none) (ht : t.calls = s.calls) :
      (t.setCall c' x').calls c = some x := by
    have hne : c ≠ c' := by
      rintro rfl
      cases hc.symm.trans hx
    exact (Function.update_of_ne hne ..).trans (ht ▸ hx)
  cases h with
  | close hm hd =>
    obtain hx' | ⟨x', fx, hparty, hsid, hp, hx', hs'⟩ := delivered hd rfl
    · exact .inl hx'
    · exact .inr ⟨_, _, x', fx, hparty, hsid, hp, hx', .inl ⟨_, _, _, rfl, hm, rfl, hs'⟩⟩
  | giveUp hy hd =>
    obtain hx' | ⟨x', fx, hparty, hsid, hp, hx', -⟩ := delivered hd rfl
    · exact .inl hx'
    · exact .inr ⟨_, _, x', fx, hparty, hsid, hp, hx', .inr ⟨rfl, rfl⟩⟩
  | badKey hc => exact .inl (other hc rfl)
  | createJob hc => exact .inl (other hc rfl)
  | requeueJob hc => exact .inl (other hc rfl)
  | _ => exact .inl hx

/-- What a query reads is a row of the tables. -/
theorem reads_row {t : Tables} {op : Op} {q : JobRow} (h : op.reads t = some q) :
    t.job? q.id = some q := by
  cases op with
  | selectById => exact (Tables.job?_id h).symm ▸ h
  | selectByRequestKey => exact Tables.job?_of_mem (List.mem_of_find?_eq_some h)
  | _ => cases h

/-- A query goes on finding a row. -/
theorem reads_ages {t t' : Tables} {op : Op} (h : (op.reads t).isSome)
    (hages : ∀ id, Ages (t.job? id) (t'.job? id)) : (op.reads t').isSome := by
  obtain ⟨q, hq⟩ := Option.isSome_iff_exists.1 h
  obtain ⟨q', hq', hprec⟩ := hages q.id q (reads_row hq)
  cases op with
  | selectById id =>
    obtain rfl := Tables.job?_id hq
    exact Option.isSome_iff_exists.2 ⟨q', hq'⟩
  | selectByRequestKey k =>
    have hkey : q.requestKey = some k := by simpa using List.find?_some hq
    refine List.find?_isSome.2 ⟨q', Tables.job?_mem hq', ?_⟩
    simpa using hprec.requestKey.trans hkey
  | _ => cases h

/-- A query looks on in the steps of others. -/
theorem State.Looks.step {op : Op} (h : s.Looks sid op) (hs : Stepped cfg s a s' es)
    (hk : Kept cfg s.mysql) (hp : Paired none s) {x : Call} (hx : s.calls c = some x)
    (hx' : s'.calls c = some x) (hw : x.Waits sid op) : s'.Looks sid op := by
  obtain ⟨hsome, y, hy, hop, hrest⟩ := h
  refine ⟨reads_ages hsome (hs.ages hk), ?_⟩
  obtain hnone | ⟨y', hy', x', hx'', hw'⟩ :=
    (hp.step hs).waited (.call c) sid op ⟨x, hx', hw⟩
  · cases hnone
  obtain rfl := Option.some.inj (hx'.symm.trans hx'')
  refine ⟨y', hy', (hw.unique hw').2, ?_⟩
  cases hs.continues hp hy' with
  | stays hy₁ _ _ hrest' =>
    obtain rfl := Option.some.inj (hy.symm.trans hy₁)
    rwa [hrest']
  | runs ha hy₁ =>
    obtain rfl := Option.some.inj (hy.symm.trans hy₁)
    subst ha
    cases hs with
    | exec hexec =>
      obtain hrest | ⟨q, hrest⟩ := hrest
      -- The row that it looks for is there already.
      · obtain ⟨y₂, hy₂, -, hrest₂⟩ := exec_reads hexec hy hrest
        obtain rfl := Option.some.inj (hy'.symm.trans hy₂)
        obtain ⟨q, hq⟩ := Option.isSome_iff_exists.1 hsome
        exact .inr ⟨q, hq ▸ hrest₂⟩
      · simp [Server.exec, hy, hrest] at hexec
  | answered hy₁ _ _ hcall =>
    obtain rfl := Option.some.inj (hy.symm.trans hy₁)
    obtain hrest | ⟨q, hrest⟩ := hrest <;> cases hrest.symm.trans hcall
  | opened hnum => exact absurd hnum (hp.party (.call c) sid op ⟨x, hx, hw⟩).2.ne

/-- A query that has returned an answer has found a row, which the tables still have. -/
theorem State.Looks.closed {op : Op} (h : s.Looks sid op) (hk : Kept cfg s.mysql) {how : Closing}
    {db : MySQL} {k : Closed Answer Op} (hclose : s.mysql.close sid how = some (db, k)) :
    db.store = s.mysql.store ∧ (k = .failed op ∨ ∃ v q q', k = .committed op (.row (some q)) ∧
      op.reads v = some q ∧ s.mysql.store.job? q.id = some q' ∧ q.Precedes q') := by
  obtain ⟨hsome, y, hy, rfl, hrest⟩ := h
  obtain rfl | ⟨a, ⟨hr, rfl⟩ | ⟨hr, rfl⟩⟩ := close_op hclose hy
  · refine ⟨?_, .inl rfl⟩
    exact hk.quiet hclose (by simp)
  · obtain hrest | ⟨q, hrest⟩ := hrest
    · cases hr.symm.trans hrest
    obtain rfl := Script.commit.inj (hr.symm.trans hrest)
    obtain ⟨hsame, -, v, hpast, hv⟩ | ⟨id, lo, hi, hchange, -⟩ := hk.commit hclose
    · have hq : y.op.reads v = some q := (Answer.row.inj hv).symm
      obtain ⟨q', hq', hprec⟩ := hpast.2 q.id q (reads_row hq)
      exact ⟨hsame, .inr ⟨v, q, q', rfl, hq, hq', hprec⟩⟩
    · generalize y.op = op at hchange
      generalize s.mysql.store.view id = v at hchange
      generalize db.store.view id = v' at hchange
      cases hchange
  · obtain hrest | ⟨q, hrest⟩ := hrest <;> cases hr.symm.trans hrest

/-- The call waits for its query, unless it has answered. -/
theorem Asks.waits {failed : Prop} {x : Call} (h : Asks s failed j x) :
    (∃ r, x = .answered r) ∨ ∃ sid op, x.Waits sid op := by
  cases h with
  | creating => exact .inr ⟨_, _, .creating⟩
  | fetching => exact .inr ⟨_, _, .fetching⟩
  | resolving hj => exact .inr ⟨_, _, .resolving hj⟩
  | _ => exact .inl ⟨_, rfl⟩

/-- A call comes no further in the steps of others. -/
theorem Asks.keep {failed failed' : Prop} {x : Call} (h : Asks s failed j x)
    (hs : Stepped cfg s a s' es) (hk : Kept cfg s.mysql) (hp : Paired none s)
    (hx : s.calls c = some x) (hx' : s'.calls c = some x) (hf : failed → failed') :
    Asks s' failed' j x := by
  have hages := hs.ages hk
  cases h with
  | creating => exact .creating
  | fetching hq hcar hlook =>
    obtain ⟨q', hq', hprec⟩ := hages _ _ hq
    exact .fetching hq' (hcar.precedes hprec) (hlook.step hs hk hp hx hx' .fetching)
  | resolving hj hlook => exact .resolving hj (hlook.step hs hk hp hx hx' (.resolving hj))
  | accepted hq hprec hcar hown =>
    obtain ⟨q', hq', hprec'⟩ := hages _ _ hq
    exact .accepted hq' (hprec.trans hprec') hcar hown
  | conflict hj => exact .conflict hj
  | failed h => exact .failed (hf h)

/-- The transaction that was to create a job was aborted: its request key is taken. -/
theorem Kept.taken (hk : Kept cfg s.mysql) {how : Closing} {db : MySQL} {b : Answer}
    (hclose : s.mysql.close sid how = some (db, .aborted (.createJob j) b))
    (hnone : s.mysql.store.job? j.id = none) :
    db.store = s.mysql.store ∧ b = .error .dupEntry ∧ ∃ h hash, j.request = some (h, hash) ∧
      ((Op.selectByRequestKey h).reads s.mysql.store).isSome := by
  obtain ⟨hsame, _, hi, -, -, hwhy, -⟩ := hk.abort hclose
  cases hwhy with
  | duplicate hadm =>
    obtain ⟨k, hkey, htaken⟩ : ∃ k, j.request.map Prod.fst = some k ∧
        s.mysql.store.taken k = true := by
      by_contra hno
      refine hadm ⟨hnone, fun k hkey => ?_⟩
      by_contra htaken
      exact hno ⟨k, hkey, by simpa using htaken⟩
    obtain ⟨⟨h, hash⟩, hj, rfl⟩ := Option.map_eq_some_iff.1 hkey
    refine ⟨hsame, rfl, h, hash, hj, List.find?_isSome.2 ?_⟩
    simpa [Tables.taken] using htaken
  | firstTaken _ hvacant =>
    refine absurd (fun o ho => ?_) hvacant
    rw [← Tables.view_outbox, ((hk.sound j.id).absent hnone).2] at ho
    cases ho

/-- A query of the call has ended. -/
theorem Asks.closed {failed failed' : Prop} {x x' : Call} {fx : Effects} {how : Closing}
    {db : MySQL} {k : Closed Answer Op} (h : Asks s failed j x) (hk : Kept cfg s.mysql)
    (hp : Paired none s) (hx : s.calls c = some x) (hsid : x.session? = some sid)
    (hclose : s.mysql.close sid how = some (db, k))
    (hgo : Call.proceed s.opened c x (answerOf k) = (x', fx))
    (hs' : s'.mysql = (State.affect cfg { s with mysql := db } fx).mysql)
    (hopens : ∀ y, s.mysql.sessions sid = some y → y.op = .createJob j →
      s.mysql.store.job? j.id = none)
    (hcreates : ∀ b, k = .committed (.createJob j) b →
      b = .done ∧ Creates j s.mysql.store s'.mysql.store)
    (hf : how = .fail → failed') : Asks s' failed' j x' := by
  have hstore : s'.mysql.store = db.store := hs' ▸ (affect_store fx).1
  have hnew {op : Op} (ho : fx.opens = some (.call c, op)) :
      ∃ y, s'.mysql.sessions ⟨.call c, s.opened⟩ = some y ∧ y.op = op ∧
        y.rest = op.script cfg :=
    ⟨_, hs' ▸ @affect_new cfg { s with mysql := db } fx _ _ ho, rfl, rfl⟩
  have hfailed {op : Op} (hkf : k = .failed op) : failed' := hf (Server.close_failed (hkf ▸ hclose))
  obtain ⟨y, hy, hwy⟩ : ∃ y, s.mysql.sessions sid = some y ∧ x.Waits sid y.op := by
    obtain ⟨r, rfl⟩ | ⟨sid', op, hw⟩ := h.waits
    · cases hsid
    obtain rfl := Option.some.inj (hsid.symm.trans hw.session)
    obtain hnone | ⟨y, hy, x₁, hx₁, hw'⟩ := hp.waited (.call c) sid op ⟨x, hx, hw⟩
    · cases hnone
    obtain rfl := Option.some.inj (hx.symm.trans hx₁)
    exact ⟨y, hy, hw'⟩
  cases h with
  | creating =>
    have hyop : y.op = .createJob j := (Call.Waits.creating.unique hwy).2
    have hnone := hopens y hy hyop
    -- The transaction fails, commits its job, or finds the key taken.
    obtain rfl | ⟨b, ⟨-, rfl⟩ | ⟨-, rfl⟩⟩ := close_op hclose hy
    · obtain ⟨rfl, rfl⟩ := Prod.mk.inj hgo
      exact .failed (hfailed rfl)
    · rw [hyop] at hcreates
      obtain ⟨rfl, hrow⟩ := hcreates b rfl
      obtain ⟨rfl, rfl⟩ := Prod.mk.inj hgo
      obtain ⟨-, q, hq, hcar⟩ := hrow.row
      obtain ⟨y', hy', hop, hrest⟩ := hnew rfl
      exact .fetching hq hcar ⟨Option.isSome_iff_exists.2 ⟨q, hq⟩, y', hy', hop, .inl hrest⟩
    · rw [hyop] at hclose
      obtain ⟨hsame, rfl, h, hash, hj, hfound⟩ := hk.taken hclose hnone
      simp only [answerOf, Call.proceed, hj] at hgo
      obtain ⟨rfl, rfl⟩ := Prod.mk.inj hgo
      obtain ⟨y', hy', hop, hrest⟩ := hnew rfl
      exact .resolving hj ⟨by rwa [hstore, hsame], y', hy', hop, .inl hrest⟩
  | fetching hq hcar hlook =>
    obtain rfl := Option.some.inj hsid
    obtain ⟨hsame, rfl | ⟨v, q₁, q', rfl, hread, hq', hprec⟩⟩ := hlook.closed hk hclose
    · obtain ⟨rfl, rfl⟩ := Prod.mk.inj hgo
      exact .failed (hfailed rfl)
    · obtain ⟨rfl, rfl⟩ := Prod.mk.inj hgo
      have hid : q₁.id = j.id := Tables.job?_id hread
      obtain rfl := Option.some.inj (hq.symm.trans (hid ▸ hq'))
      exact .accepted (by rwa [hstore, hsame]) hprec (hprec.carries hcar) fun _ => hid
  | @resolving _ h hash hj hlook =>
    obtain rfl := Option.some.inj hsid
    obtain ⟨hsame, rfl | ⟨v, q₁, q', rfl, hread, hq', hprec⟩⟩ := hlook.closed hk hclose
    · obtain ⟨rfl, rfl⟩ := Prod.mk.inj hgo
      exact .failed (hfailed rfl)
    · have hkey : q₁.requestKey = some h := by simpa using List.find?_some hread
      simp only [answerOf, Call.proceed] at hgo
      -- The hashes are compared.
      split at hgo
      · obtain ⟨rfl, rfl⟩ := Prod.mk.inj hgo
        exact .conflict (by simp [hj])
      · rename_i hhash
        obtain ⟨rfl, rfl⟩ := Prod.mk.inj hgo
        exact .accepted (by rwa [hstore, hsame]) hprec ⟨by rw [hkey, hj]; rfl, not_ne_iff.1 hhash⟩
          fun hnone => by cases hj.symm.trans hnone
  | _ => cases hsid

/-- Where a transaction that is to create a job comes from. -/
theorem Stepped.enqueues (hs : Stepped cfg s a s' es) (hp : Paired none s) {y : Conn}
    (hy : s'.mysql.sessions sid = some y) (hop : y.op = .createJob j) :
    (∃ y', s.mysql.sessions sid = some y' ∧ y'.op = .createJob j) ∨
    ∃ c, (c, j) ∈ called es ∧ sid = ⟨.call c, s.opened⟩ := by
  cases hs.continues hp hy with
  | stays hy' hop' => exact .inl ⟨_, hy', hop' ▸ hop⟩
  | runs _ hy' hop' => exact .inl ⟨_, hy', hop' ▸ hop⟩
  | answered hy' hop' => exact .inl ⟨_, hy', hop' ▸ hop⟩
  | opened hnum _ _ hby =>
    obtain ⟨p, n⟩ := sid
    obtain rfl : n = s.opened := hnum
    rw [hop] at hby
    cases hby with
    | createJob _ he => exact .inr ⟨_, mem_called.2 he, rfl⟩

/-- At most one job is created in a step. -/
theorem Stepped.calls_one (hs : Stepped cfg s a s' es) {c' : ℕ} {j' : NewJob}
    (hj : (c, j) ∈ called es) (hj' : (c', j') ∈ called es) : c = c' ∧ j = j' := by
  obtain hnil | ⟨_, _, _, _, _, _, -, -, -, hone⟩ := hs.calling
  · simp [hnil] at hj
  · rw [hone, List.mem_singleton] at hj hj'
    exact Prod.mk.inj (hj.trans hj'.symm)

section Step

variable (h : Enqueued cfg s₀ acts es s) (hs : Stepped cfg s a s' es') (hk : Kept cfg s.mysql)
  (hp : Paired none s) (hids : NewIds s₀ (es ++ es'))

include h hids in
/-- No job has the id that has just been drawn. -/
theorem Enqueued.absent (hj : (c, j) ∈ called es') : s.mysql.store.job? j.id = none := by
  rw [Option.eq_none_iff_forall_ne_some]
  intro r hr
  obtain ⟨r₀, hr₀, -⟩ | ⟨c', j', hj', hid, -⟩ := h.rows j.id r hr
  · cases (hids.absent c j (called_append ▸ List.mem_append_right _ hj)).symm.trans hr₀
  · exact hids.fresh hj' hj hid.symm

include h hs hp hids in
theorem Enqueued.unique_step {sid' : Sid} {y y' : Conn} {j' : NewJob}
    (hy : s'.mysql.sessions sid = some y) (hy' : s'.mysql.sessions sid' = some y')
    (hop : y.op = .createJob j) (hop' : y'.op = .createJob j') (hid : j.id = j'.id) :
    sid = sid' := by
  obtain ⟨x, hx, hxop⟩ | ⟨c, hj, rfl⟩ := hs.enqueues hp hy hop
  · obtain ⟨x', hx', hxop'⟩ | ⟨c', hj', -⟩ := hs.enqueues hp hy' hop'
    · exact h.unique _ _ _ _ _ _ hx hx' hxop hxop' hid
    · obtain ⟨c, hj⟩ := (h.opens _ _ _ hx hxop).1
      exact absurd hid.symm (hids.fresh hj hj')
  · obtain ⟨x', hx', hxop'⟩ | ⟨c', hj', rfl⟩ := hs.enqueues hp hy' hop'
    · obtain ⟨c', hj'⟩ := (h.opens _ _ _ hx' hxop').1
      exact absurd hid (hids.fresh hj' hj)
    · rw [(hs.calls_one hj hj').1]

include h hs hk hp hids in
theorem Enqueued.opens_step {y : Conn} (hy : s'.mysql.sessions sid = some y)
    (hop : y.op = .createJob j) :
    (∃ c, (c, j) ∈ called (es ++ es')) ∧ s'.mysql.store.job? j.id = none := by
  have hold : (∃ c, (c, j) ∈ called (es ++ es')) ∧ s.mysql.store.job? j.id = none := by
    obtain ⟨x, hx, hxop⟩ | ⟨c, hj, -⟩ := hs.enqueues hp hy hop
    · obtain ⟨⟨c, hj⟩, hnone⟩ := h.opens _ _ _ hx hxop
      exact ⟨⟨c, called_append ▸ List.mem_append_left _ hj⟩, hnone⟩
    · exact ⟨⟨c, called_append ▸ List.mem_append_right _ hj⟩, h.absent hids hj⟩
  refine ⟨hold.1, ?_⟩
  rw [Option.eq_none_iff_forall_ne_some]
  intro r' hr'
  obtain ⟨r, hr, -⟩ | ⟨sid', how, db, j', rfl, hid, hclose, -⟩ := hs.born hk hr'
  · cases hold.2.symm.trans hr
  · -- The transaction that committed is not the one that is still open.
    obtain ⟨x', hx', hxop', -⟩ := commit_session hclose
    obtain ⟨x, hx, hxop⟩ | ⟨c, hj, -⟩ := hs.enqueues hp hy hop
    · obtain rfl := h.unique _ _ _ _ _ _ hx' hx hxop' hxop hid
      cases (hs.closed hp).symm.trans hy
    · obtain ⟨c', hj'⟩ := (h.opens _ _ _ hx' hxop').1
      exact hids.fresh hj' hj hid.symm

include h hs hk in
theorem Enqueued.rows_step (hplay : Played cfg s₀ acts es s) (hstep : s.step cfg a = some (s', es'))
    {id : JobId} {r' : JobRow} (hr' : s'.mysql.store.job? id = some r') :
    (∃ r₀, s₀.mysql.store.job? id = some r₀ ∧ r₀.Precedes r') ∨
    ∃ c j, (c, j) ∈ called (es ++ es') ∧ j.id = id ∧ r'.Carries j ∧
      Created cfg s₀ (acts ++ [a]) j := by
  obtain ⟨r, hr, hprec⟩ | ⟨sid, how, db, j, rfl, rfl, hclose, hcreates⟩ := hs.born hk hr'
  · obtain ⟨r₀, hr₀, hprec₀⟩ | ⟨c, j, hj, hid, hcar, hcreated⟩ := h.rows id r hr
    · exact .inl ⟨r₀, hr₀, hprec₀.trans hprec⟩
    · exact .inr ⟨c, j, called_append ▸ List.mem_append_left _ hj, hid, hcar.precedes hprec,
        hcreated.mono⟩
  · obtain ⟨x, hx, hxop, -⟩ := commit_session hclose
    obtain ⟨c, hj⟩ := (h.opens _ _ _ hx hxop).1
    obtain ⟨-, q, hq, hcar⟩ := hcreates.row
    obtain rfl := Option.some.inj (hr'.symm.trans hq)
    exact .inr ⟨c, j, called_append ▸ List.mem_append_left _ hj, rfl, hcar, acts, _, [], es, s,
      es', s', rfl, hplay, hstep, hcreates⟩

include h hs hk in
theorem Enqueued.committed_step {b : Answer}
    (hmem : .closed sid (.committed (.createJob j) b) ∈ es ++ es') :
    ∃ r, s'.mysql.store.job? j.id = some r ∧ r.Carries j := by
  obtain hmem | hmem := List.mem_append.1 hmem
  · obtain ⟨r, hr, hcar⟩ := h.committed _ _ _ hmem
    obtain ⟨r', hr', hprec⟩ := hs.ages hk _ r hr
    exact ⟨r', hr', hcar.precedes hprec⟩
  · obtain ⟨how, db, rfl, hclose, -⟩ := hs.closed_mem hmem
    exact (hs.creates hk hclose).2.row.2

include h hs hk hp in
theorem Enqueued.asks_step (hj : (c, j) ∈ called (es ++ es')) :
    ∃ x, s'.calls c = some x ∧ Asks s' (Failed c (acts ++ [a])) j x := by
  rw [called_append] at hj
  obtain hj | hj := List.mem_append.1 hj
  · obtain ⟨x, hx, hasks⟩ := h.asks c j hj
    obtain hx' | ⟨sid, b, x', fx, hparty, hsid, hgo, hx', hhow⟩ := hs.proceeds hx
    · exact ⟨x, hx', hasks.keep hs hk hp hx hx' .mono⟩
    have hlast {a : Action} : a ∈ acts ++ [a] := List.mem_append_right _ List.mem_cons_self
    obtain ⟨how, db, k, rfl, hclose, rfl, hmysql⟩ | ⟨rfl, rfl⟩ := hhow
    · refine ⟨x', hx', hasks.closed hk hp hx hsid hclose hgo hmysql
        (fun y hy hop => (h.opens _ _ _ hy hop).2) (fun b hkb => ?_) fun hfail => ?_⟩
      · exact hs.creates hk (hkb ▸ hclose)
      · exact ⟨sid, hparty, .inl (hfail ▸ hlast)⟩
    -- A request whose statement was given up is answered with an internal error.
    · refine ⟨x', hx', ?_⟩
      obtain ⟨rfl, -⟩ : x' = .answered .internal ∧ _ := by
        cases hasks <;> exact (Prod.mk.inj hgo).imp_left Eq.symm
      exact .failed ⟨sid, hparty, .inr hlast⟩
  · obtain hnil | ⟨_, _, _, _, _, _, rfl, -, hkey, hone⟩ := hs.calling
    · simp [hnil] at hj
    · rw [hone, List.mem_singleton] at hj
      obtain ⟨rfl, rfl⟩ := Prod.mk.inj hj
      cases hs with
      | badKey _ hbad => cases hbad.symm.trans hkey
      | createJob _ hkey' =>
        obtain rfl := Option.some.inj (hkey.symm.trans hkey')
        exact ⟨_, Function.update_self .., .creating⟩

end Step

end Steps

/-! ## Runs -/

section Runs

variable {cfg : Config} {s₀ s : State} {acts : List Action} {es : List Event} {j : NewJob} {c : ℕ}

theorem Initial.enqueued (h : Initial s₀) : Enqueued cfg s₀ [] [] s₀ where
  asks c j hj := absurd hj List.not_mem_nil
  opens sid y j hy := by simp [h.sessions] at hy
  unique sid sid' y y' j j' hy := by simp [h.sessions] at hy
  rows id r hr := .inl ⟨r, hr, .refl r⟩
  committed sid j a hmem := absurd hmem List.not_mem_nil

theorem Played.enqueued (h : Played cfg s₀ acts es s) (h₀ : Initial s₀) (hids : NewIds s₀ es) :
    Enqueued cfg s₀ acts es s := by
  induction h with
  | refl => exact h₀.enqueued
  | step h hstep ih =>
    have hk := h.run.kept h₀
    have hp := h.run.paired h₀
    have hs := step_cases hstep
    have ih := ih hids.left
    exact ⟨fun _ _ => ih.asks_step hs hk hp, fun _ _ _ => ih.opens_step hs hk hp hids,
      fun _ _ _ _ _ _ => ih.unique_step hs hp hids, fun _ _ => ih.rows_step hs hk h hstep,
      fun _ _ _ => ih.committed_step hs hk⟩

theorem post?_eq_some {a : Action} {p : Post} : a.post? = some p ↔ a = p.action := by
  constructor
  · intro h
    cases a with
    | createJob =>
      simp only [Action.post?] at h
      split at h
      · obtain rfl := Option.some.inj h
        rfl
      · cases h
    | _ => cases h
  · rintro rfl
    obtain ⟨_, _, _, _, _, key, hkey⟩ := p
    simp only [Post.action, Action.post?]
    split
    · rename_i key' hkey'
      obtain rfl := Option.some.inj (hkey'.symm.trans hkey)
      rfl
    · rename_i hnone
      cases hnone.symm.trans hkey

/-- Every request calls `createJob`. -/
theorem Played.posted (h : Played cfg s₀ acts es s) {p : Post} (hp : p ∈ posts acts) :
    (p.call, p.job cfg) ∈ called es := by
  induction h with
  | refl => cases hp
  | @step acts es es' s s' a h hstep ih =>
    rw [posts, List.filterMap_append] at hp
    rw [called_append]
    obtain hp | hp := List.mem_append.1 hp
    · exact List.mem_append_left _ (ih hp)
    · obtain ⟨b, hb, hpost⟩ := List.mem_filterMap.1 hp
      obtain rfl := List.mem_singleton.1 hb
      obtain rfl := post?_eq_some.1 hpost
      refine List.mem_append_right _ (mem_called.2 ?_)
      cases step_cases hstep with
      | badKey _ hkey => cases hkey.symm.trans p.key_eq
      | createJob _ hkey =>
        obtain rfl := Option.some.inj (hkey.symm.trans p.key_eq)
        exact List.mem_cons_self

/-- A call of `createJob` is that of a request. -/
theorem Played.post (h : Played cfg s₀ acts es s) (hj : (c, j) ∈ called es) :
    ∃ p ∈ posts acts, p.call = c ∧ p.job cfg = j := by
  induction h with
  | refl => cases hj
  | step h hstep ih =>
    rw [called_append] at hj
    obtain hj | hj := List.mem_append.1 hj
    · obtain ⟨p, hp, heq⟩ := ih hj
      exact ⟨p, by rw [posts, List.filterMap_append]; exact List.mem_append_left _ hp, heq⟩
    · obtain hnil | ⟨c', clientId, header, key, input, id, rfl, -, hkey, hone⟩ :=
        (step_cases hstep).calling
      · simp [hnil] at hj
      · rw [hone, List.mem_singleton] at hj
        obtain ⟨rfl, rfl⟩ := Prod.mk.inj hj
        refine ⟨⟨c, clientId, header, input, id, key, hkey⟩, ?_, rfl, rfl⟩
        rw [posts, List.filterMap_append]
        refine List.mem_append_right _ (List.mem_filterMap.2 ⟨_, List.mem_singleton.2 rfl, ?_⟩)
        exact post?_eq_some.2 rfl

/-- The first separator splits a list in one way. -/
theorem append_cons_inj {α : Type} {a : α} {x x' z z' : List α} (hx : a ∉ x) (hx' : a ∉ x')
    (h : x ++ a :: z = x' ++ a :: z') : x = x' ∧ z = z' := by
  induction x generalizing x' with
  | nil =>
    cases x' with
    | nil => exact ⟨rfl, (List.cons.inj h).2⟩
    | cons b x' => exact absurd ((List.cons.inj h).1 ▸ List.mem_cons_self) hx'
  | cons b x ih =>
    cases x' with
    | nil => exact absurd ((List.cons.inj h).1 ▸ List.mem_cons_self) hx
    | cons b' x' =>
      obtain ⟨rfl, ht⟩ := List.cons.inj h
      obtain ⟨rfl, rfl⟩ :=
        ih (List.not_mem_of_not_mem_cons hx) (List.not_mem_of_not_mem_cons hx') ht
      exact ⟨rfl, rfl⟩

/-- The request key of a client and its `Idempotency-Key` tells them. -/
theorem requestKeyOf_inj {clientId clientId' : Text} {header header' : Option Text} {k : Text}
    (hc : unit ':' ∉ clientId) (hc' : unit ':' ∉ clientId')
    (h : requestKeyOf clientId header = some (some k))
    (h' : requestKeyOf clientId' header' = some (some k)) :
    clientId = clientId' ∧ header = header' := by
  have text {clientId : Text} {header : Option Text}
      (h : requestKeyOf clientId header = some (some k)) :
      ∃ key, header = some key ∧ k = clientId ++ unit ':' :: key := by
    cases header with
    | none => simp [requestKeyOf] at h
    | some key =>
      rw [requestKeyOf] at h
      split at h
      · cases h
      · exact ⟨key, rfl, (Option.some.inj (Option.some.inj h)).symm⟩
  obtain ⟨key, rfl, rfl⟩ := text h
  obtain ⟨key', rfl, heq⟩ := text h'
  obtain ⟨rfl, rfl⟩ := append_cons_inj hc hc' heq
  exact ⟨rfl, rfl⟩

/-- Requests with one request key and one digest have the same input. -/
theorem Post.same (hdigest : Function.Injective cfg.digest) {p p' : Post} {k : Text}
    (hk : p.key = some k) (h : (p.job cfg).request = (p'.job cfg).request) :
    p'.key = some k ∧ p.input.toJson.Same p'.input.toJson := by
  simp only [Post.job, newJob, hk, Option.map_some] at h
  obtain ⟨k', hk', heq⟩ := Option.map_eq_some_iff.1 h.symm
  obtain ⟨hkey, hhash⟩ := Prod.mk.inj heq
  obtain rfl := hdigest hkey
  refine ⟨hk', ?_⟩
  exact (canonical_append_inj _ _ stops_nil stops_nil (by rw [hdigest hhash])).1

theorem JobRow.Carries.request {r : JobRow} {j' : NewJob} (h : r.Carries j) (h' : r.Carries j') :
    j.request = j'.request := by
  have hkey := h.requestKey.symm.trans h'.requestKey
  have hhash := h.requestHash.symm.trans h'.requestHash
  cases hj : j.request with
  | none => cases hj' : j'.request <;> simp_all
  | some _ => cases hj' : j'.request <;> simp_all [Prod.ext_iff]

/-- An accepted request is given a job that carries its request. -/
theorem Enqueued.accepted (h : Enqueued cfg s₀ acts es s) (hj : (c, j) ∈ called es) {r : JobRow}
    (hr : s.calls c = some (.answered (.accepted r))) :
    ∃ q, s.mysql.store.job? r.id = some q ∧ q.Carries j ∧ (j.request = none → r.id = j.id) := by
  obtain ⟨x, hx, hasks⟩ := h.asks c j hj
  obtain rfl := Option.some.inj (hr.symm.trans hx)
  cases hasks with
  | accepted hq hprec hcar hown => exact ⟨_, hq, hcar.precedes hprec, hown⟩

/-- Unless a statement of it fails, a request is accepted, or its key is taken. -/
theorem Enqueued.answered (h : Enqueued cfg s₀ acts es s) (hj : (c, j) ∈ called es) {r : Response}
    (hr : s.calls c = some (.answered r)) (hf : ¬ Failed c acts) :
    (∃ q, r = .accepted q) ∨ r = .conflict ∧ j.request ≠ none := by
  obtain ⟨x, hx, hasks⟩ := h.asks c j hj
  obtain rfl := Option.some.inj (hr.symm.trans hx)
  cases hasks with
  | accepted => exact .inl ⟨_, rfl⟩
  | conflict hj => exact .inr ⟨rfl, hj⟩
  | failed h => exact absurd h hf

/-- A row under a request key that was not taken at the start was created by a request. -/
theorem Enqueued.creator (h : Enqueued cfg s₀ acts es s) {k : Text}
    (hkey : s₀.mysql.store.taken k = false) {id : JobId} {q : JobRow}
    (hq : s.mysql.store.job? id = some q) (hk : q.requestKey = some k) :
    ∃ c j, (c, j) ∈ called es ∧ j.id = id ∧ q.Carries j ∧ Created cfg s₀ acts j := by
  obtain ⟨r₀, hr₀, hprec⟩ | hborn := h.rows id q hq
  · refine absurd ?_ (Tables.taken_eq_false.1 hkey)
    exact List.mem_filterMap.2 ⟨r₀, Tables.job?_mem hr₀, hprec.requestKey.symm.trans hk⟩
  · exact hborn

/-- The job of a request was created by it. -/
theorem Enqueued.own (h : Enqueued cfg s₀ acts es s) (hids : NewIds s₀ es)
    (hj : (c, j) ∈ called es) {q : JobRow} (hq : s.mysql.store.job? j.id = some q) :
    q.Carries j ∧ Created cfg s₀ acts j := by
  obtain ⟨r₀, hr₀, -⟩ | ⟨c', j', hj', hid, hcar, hcreated⟩ := h.rows j.id q hq
  · cases (hids.absent c j hj).symm.trans hr₀
  · obtain ⟨-, rfl⟩ := hids.inj hj' hj hid
    exact ⟨hcar, hcreated⟩

/-- The tables keep at most one row under a request key, now and later. -/
theorem Played.one_row (h₀ : Initial s₀) (h : Played cfg s₀ acts es s) {acts' : List Action}
    {es' : List Event} {s' : State} (h' : Played cfg s acts' es' s') {k : Text} {r r' : JobRow}
    (hr : r ∈ s.mysql.store.jobs) (hr' : r' ∈ s'.mysql.store.jobs) (hk : r.requestKey = some k)
    (hk' : r'.requestKey = some k) : r.id = r'.id := by
  suffices hlater : ∃ q, s'.mysql.store.job? r.id = some q ∧ r.Precedes q by
    obtain ⟨q, hq, hprec⟩ := hlater
    have hkq : q.requestKey = some k := hprec.requestKey.trans hk
    rw [← Tables.job?_id hq, Tables.requestKey_unique (Tables.job?_mem hq) hr' hkq hk']
  clear hr' hk'
  induction h' with
  | refl => exact ⟨r, Tables.job?_of_mem hr, .refl r⟩
  | step h' hstep ih =>
    obtain ⟨q, hq, hprec⟩ := ih
    obtain ⟨q', hq', hprec'⟩ := (step_cases hstep).ages ((h.run.trans h'.run).kept h₀) r.id q hq
    exact ⟨q', hq', hprec.trans hprec'⟩

theorem Post.key_ne (p : Post) : p.header ≠ none ↔ ∃ k, p.key = some k := by
  have h := p.key_eq
  cases hh : p.header with
  | none =>
    rw [hh, requestKeyOf, Option.some.injEq] at h
    simp [← h]
  | some header =>
    rw [hh, requestKeyOf] at h
    split at h
    · cases h
    · simp [← Option.some.inj h]

theorem Post.request_eq_none (p : Post) : (p.job cfg).request = none ↔ p.header = none := by
  rw [Post.job, newJob, Option.map_eq_none_iff, ← not_iff_not, ← ne_eq, ← ne_eq, p.key_ne,
    Option.ne_none_iff_exists']

theorem Post.request_key (p : Post) {k : Text} (hk : p.key = some k) :
    (p.job cfg).request.map Prod.fst = some (cfg.digest k) := by
  simp [Post.job, newJob, hk]

/-- Rows of two requests under one request key are one row, and their inputs the same. -/
theorem Post.clash (hdigest : Function.Injective cfg.digest) {p p' : Post} {t : Tables}
    {q q' : JobRow} (hk : p.header ≠ none) (hc : p'.clientId = p.clientId)
    (hh : p'.header = p.header) (hq : q ∈ t.jobs) (hq' : q' ∈ t.jobs) (hcar : q.Carries (p.job cfg))
    (hcar' : q'.Carries (p'.job cfg)) : q = q' ∧ p.input.toJson.Same p'.input.toJson := by
  obtain ⟨k, hkey⟩ := p.key_ne.1 hk
  have hk' : p'.key = some k := by
    have h := p'.key_eq
    rw [hc, hh, p.key_eq] at h
    rw [← Option.some.inj h, hkey]
  obtain rfl : q = q' := Tables.requestKey_unique hq hq' (k := cfg.digest k)
    (hcar.requestKey.trans (p.request_key hkey)) (hcar'.requestKey.trans (p'.request_key hk'))
  exact ⟨rfl, (Post.same hdigest hkey (hcar.request hcar')).2⟩

/-- A request that took its key has a row. -/
theorem Enqueued.took (h : Enqueued cfg s₀ acts es s) (hids : NewIds s₀ es) {p : Post}
    (hj : (p.call, p.job cfg) ∈ called es) (ht : p.Took s) :
    ∃ q ∈ s.mysql.store.jobs, q.Carries (p.job cfg) := by
  obtain hrow | ⟨r, hr⟩ := ht
  · obtain ⟨q, hq⟩ := Option.isSome_iff_exists.1 hrow
    exact ⟨q, Tables.job?_mem hq, (h.own hids hj hq).1⟩
  · obtain ⟨q, hq, hcar, -⟩ := h.accepted hj hr
    exact ⟨q, Tables.job?_mem hq, hcar⟩

end Runs

/-- In every run, from tables in which no request has its key taken: there is at most one
    row under a request key; a request without a key that is accepted has created its job; a request
    with a key that is accepted is given a job that a request of the same client with the
    same key and the same input has created; requests of two clients are never given the
    same job, those of one client with one key always; one whose input is not that of
    a request that took the key creates nothing, and is told so unless a statement of it
    failed. A job is created with one entry of the audit log and one row of the outbox. -/
theorem enqueue_idempotent {cfg : Config} {s₀ s : State} {acts : List Action} {es : List Event}
    (hdigest : Function.Injective cfg.digest) (h₀ : Initial s₀)
    (h : Played cfg s₀ acts es s) (hids : NewIds s₀ es)
    (hkeys : ∀ p ∈ posts acts, ∀ k ∈ p.key, s₀.mysql.store.taken (cfg.digest k) = false)
    (hclients : ∀ p ∈ posts acts, unit ':' ∉ p.clientId) :
    (∀ acts' es' s', Played cfg s acts' es' s' → ∀ k, ∀ r ∈ s.mysql.store.jobs,
      ∀ r' ∈ s'.mysql.store.jobs, r.requestKey = some k → r'.requestKey = some k → r.id = r'.id) ∧
    (∀ p ∈ posts acts, p.header = none →
      (∀ r, p.Accepted s r → r.id = p.id ∧ Created cfg s₀ acts (p.job cfg)) ∧
      (¬ Failed p.call acts → ∀ r, s.calls p.call = some (.answered r) → ∃ q, r = .accepted q)) ∧
    (∀ p ∈ posts acts, p.header ≠ none → ∀ r, p.Accepted s r →
      ∃ p₀ ∈ posts acts, r.id = p₀.id ∧ Created cfg s₀ acts (p₀.job cfg) ∧
        p₀.clientId = p.clientId ∧ p₀.header = p.header ∧ p.input.toJson.Same p₀.input.toJson) ∧
    ∀ p ∈ posts acts, ∀ p' ∈ posts acts, p.header ≠ none → p'.header = p.header →
      (p'.clientId ≠ p.clientId → ∀ r r', p.Accepted s r → p'.Accepted s r' → r.id ≠ r'.id) ∧
      (p'.clientId = p.clientId →
        (∀ r r', p.Accepted s r → p'.Accepted s r' → r.id = r'.id) ∧
        (p'.Took s → ¬ p.input.toJson.Same p'.input.toJson →
          s.mysql.store.view p.id = ⟨none, [], []⟩ ∧
          (∀ sid a, .closed sid (.committed (.createJob (p.job cfg)) a) ∉ es) ∧
          (¬ Failed p.call acts → ∀ r, s.calls p.call = some (.answered r) → r = .conflict))) := by
  have henq := h.enqueued h₀ hids
  refine ⟨fun acts' es' s' h' k r hr r' hr' hk hk' => h.one_row h₀ h' hr hr' hk hk', ?_, ?_, ?_⟩
  -- Without a key.
  · intro p hp hnone
    have hj := h.posted hp
    have hreq : (p.job cfg).request = none := p.request_eq_none.2 hnone
    refine ⟨fun r hr => ?_, fun hf r hr => ?_⟩
    · obtain ⟨q, hq, hcar, hown⟩ := henq.accepted hj hr
      rw [hown hreq] at hq
      exact ⟨hown hreq, (henq.own hids hj hq).2⟩
    · exact (henq.answered hj hr hf).resolve_right fun h => h.2 hreq
  -- With a key: the row that it is given was created by some request, whose key is the same.
  · intro p hp hkey r hr
    have hj := h.posted hp
    obtain ⟨q, hq, hcar, -⟩ := henq.accepted hj hr
    obtain ⟨k, hk⟩ := p.key_ne.1 hkey
    obtain ⟨c, j, hj', hid, hcar', hcreated⟩ :=
      henq.creator (hkeys p hp k hk) hq (hcar.requestKey.trans (p.request_key hk))
    obtain ⟨p₀, hp₀, rfl, rfl⟩ := h.post hj'
    obtain ⟨hk₀, hsame⟩ := Post.same hdigest hk (hcar.request hcar')
    obtain ⟨hc, hh⟩ := requestKeyOf_inj (hclients p hp) (hclients p₀ hp₀) (hk ▸ p.key_eq)
      (hk₀ ▸ p₀.key_eq)
    exact ⟨p₀, hp₀, hid.symm, hcreated, hc.symm, hh.symm, hsame⟩
  · intro p hp p' hp' hkey hh
    have hj := h.posted hp
    have hj' := h.posted hp'
    refine ⟨fun hc r r' hr hr' hid => ?_, fun hc => ⟨fun r r' hr hr' => ?_, fun ht hdiffer => ?_⟩⟩
    · obtain ⟨q, hq, hcar, -⟩ := henq.accepted hj hr
      obtain ⟨q', hq', hcar', -⟩ := henq.accepted hj' hr'
      obtain rfl := Option.some.inj (hq.symm.trans (hid ▸ hq'))
      obtain ⟨k, hk⟩ := p.key_ne.1 hkey
      obtain ⟨hk', -⟩ := Post.same hdigest hk (hcar.request hcar')
      exact hc (requestKeyOf_inj (hclients p hp) (hclients p' hp') (hk ▸ p.key_eq)
        (hk' ▸ p'.key_eq)).1.symm
    · obtain ⟨q, hq, hcar, -⟩ := henq.accepted hj hr
      obtain ⟨q', hq', hcar', -⟩ := henq.accepted hj' hr'
      obtain ⟨rfl, -⟩ := Post.clash hdigest hkey hc hh (Tables.job?_mem hq) (Tables.job?_mem hq')
        hcar hcar'
      rw [← Tables.job?_id hq, ← Tables.job?_id hq']
    · obtain ⟨q', hq', hcar'⟩ := henq.took hids hj' ht
      -- A row of this request would be that of the other.
      have hno : ∀ q ∈ s.mysql.store.jobs, ¬ q.Carries (p.job cfg) := fun q hq hcar =>
        hdiffer (Post.clash hdigest hkey hc hh hq hq' hcar hcar').2
      have hrow : s.mysql.store.job? p.id = none :=
        Option.eq_none_iff_forall_ne_some.2 fun q hq =>
          hno q (Tables.job?_mem hq) (henq.own hids hj hq).1
      refine ⟨?_, fun sid a hmem => ?_, fun hf r hr => ?_⟩
      · obtain ⟨hlogs, hout⟩ := ((h.run.kept h₀).sound p.id).absent hrow
        exact (JobView.mk.injEq ..).mpr ⟨hrow, hlogs, hout⟩
      · obtain ⟨q, hq, hcar⟩ := henq.committed _ _ _ hmem
        exact hno q (Tables.job?_mem hq) hcar
      · obtain ⟨q, rfl⟩ | ⟨rfl, -⟩ := henq.answered hj hr hf
        · obtain ⟨q', hq', hcar, -⟩ := henq.accepted hj hr
          exact absurd hcar (hno q' (Tables.job?_mem hq'))
        · rfl

/-- The actions can be made, one after the other. -/
def State.plays (cfg : Config) : State → List Action → Bool
  | _, [] => true
  | s, a :: acts =>
    match s.step cfg a with
    | none => false
    | some (s', _) => s'.plays cfg acts

theorem Played.play {cfg : Config} {s₀ s : State} {acts acts' : List Action} {es : List Event}
    (h : Played cfg s₀ acts es s) (hplay : s.plays cfg acts' = true) :
    Played cfg s₀ (acts ++ acts') (es ++ (s.play cfg acts').2) (s.play cfg acts').1 := by
  induction acts' generalizing acts es s with
  | nil => simpa [State.play] using h
  | cons a acts' ih =>
    simp only [State.plays] at hplay
    split at hplay
    · cases hplay
    · rename_i hstep
      have := ih (h.step hstep) hplay
      simpa [State.play, hstep] using this

/-- It asks for a job of another type. -/
def otherInput : CreateJobInput := { firstInput with type := .failJob }

/-- The call `c` of a client with a key. -/
def firstPost (c : ℕ) (input : CreateJobInput) (id : JobId) : Post where
  call := c
  clientId := ascii "client".toList
  header := some (ascii "key".toList)
  input := input
  id := id
  key := some (ascii "client:key".toList)
  key_eq := by decide

/-- Three requests at once: the first one creates its job, the second one is given it, and
    the third one has another input. -/
def threePosts : List Action :=
  [(firstPost 0 firstInput firstJob).action,
    (firstPost 1 firstInput ⟨"second post", by decide⟩).action,
    (firstPost 2 otherInput ⟨"third post", by decide⟩).action] ++
  List.replicate 3 (.exec ⟨.call 0, 0⟩ 0) ++ [.close ⟨.call 0, 0⟩ .commit] ++
  [.exec ⟨.call 1, 1⟩ 0, .close ⟨.call 1, 1⟩ .abort, .exec ⟨.call 2, 2⟩ 0,
    .close ⟨.call 2, 2⟩ .abort] ++
  [.exec ⟨.call 0, 3⟩ 0, .close ⟨.call 0, 3⟩ .commit, .exec ⟨.call 1, 4⟩ 0,
    .close ⟨.call 1, 4⟩ .commit, .exec ⟨.call 2, 5⟩ 0, .close ⟨.call 2, 5⟩ .commit]

theorem other_ne_first : ¬ otherInput.toJson.Same firstInput.toJson := by
  rintro ⟨-, ⟨w, hw, hsame⟩, -⟩
  obtain heq | hw := List.mem_cons.1 hw
  · obtain ⟨-, rfl⟩ := Prod.mk.inj heq
    have hname : ascii otherInput.type.name.toList = ascii firstInput.type.name.toList := hsame
    exact absurd hname (by decide)
  · have hkey : ascii "type".toList ∈
        [ascii "payload".toList, ascii "max_retries".toList, ascii "priority".toList] :=
      List.mem_map_of_mem (f := Prod.fst) hw
    exact absurd hkey (by decide)

/-- The first two requests are given one job, and the third one has created nothing. -/
theorem enqueue_idempotent_three :
    let s := (State.after threePosts).1
    (∃ r r', s.calls 0 = some (.answered (.accepted r)) ∧
      s.calls 1 = some (.answered (.accepted r')) ∧ r.id = r'.id) ∧
    s.mysql.store.view ⟨"third post", by decide⟩ = ⟨none, [], []⟩ ∧
    s.calls 2 = some (.answered .conflict) := by
  have hids : NewIds .fresh (State.after threePosts).2 := ⟨by decide, fun _ _ _ => rfl⟩
  have hclients : ∀ p ∈ posts threePosts, unit ':' ∉ p.clientId := by decide
  have h : Played (.defaults id) .fresh threePosts (State.after threePosts).2
      (State.after threePosts).1 := Played.refl.play rfl
  obtain ⟨-, -, -, hpairs⟩ := enqueue_idempotent (fun _ _ heq => heq) .fresh h hids
    (fun _ _ _ _ => rfl) hclients
  have hmem (p : Post) (ha : p.action ∈ threePosts) : p ∈ posts threePosts :=
    List.mem_filterMap.2 ⟨_, ha, post?_eq_some.2 rfl⟩
  have h₀ := hmem (firstPost 0 firstInput firstJob) (.head _)
  have h₁ := hmem (firstPost 1 firstInput ⟨"second post", by decide⟩) (.tail _ (.head _))
  have h₂ := hmem (firstPost 2 otherInput ⟨"third post", by decide⟩) (.tail _ (.tail _ (.head _)))
  have hsame := ((hpairs _ h₀ _ h₁ (by decide) rfl).2 rfl).1 _ _ rfl rfl
  have hother := ((hpairs _ h₂ _ h₀ (by decide) rfl).2 rfl).2 (.inl rfl) other_ne_first
  exact ⟨⟨_, _, rfl, rfl, hsame⟩, hother.1, rfl⟩

end ScaleQueue
