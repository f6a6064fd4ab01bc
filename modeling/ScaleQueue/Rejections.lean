import ScaleQueue.Fences

/-!
# Calls of the API that are rejected

A call of `createJob` or `requeueJob` on its own, whose connection may fail at any
statement (`Alone`). The call changes the tables by the commit of its transaction, and
by nothing else (`Answering`). Before the commit, every error leaves the tables as they
were; but the job is read back after it, and an error there is an error of the call.
-/

namespace ScaleQueue

open Locking

/-- The answer is an error. -/
def Response.Rejects : Response → Prop
  | .accepted _ => False
  | .requeued _ => False
  | _ => True

/-- The call `c` of `createJob` or `requeueJob` comes in. -/
def Action.Calls (c : ℕ) (a : Action) : Prop :=
  (∃ clientId header input id, a = .createJob c clientId header input id) ∨
    ∃ id, a = .requeueJob c id

/-- A statement of the call `c`, or the end of one of its queries; or time passes. -/
def Action.By (c : ℕ) (s : State) : Action → Prop
  | .advance _ => True
  | .exec sid _ => ∃ op, s.Waits sid op (.call c)
  | .close sid _ => ∃ op, s.Waits sid op (.call c)
  | _ => False

/-- The call `c` goes on from `s₀`, and nobody else does anything. -/
inductive Alone (cfg : Config) (c : ℕ) (s₀ : State) : List Event → State → Prop
  | refl : Alone cfg c s₀ [] s₀
  | step {es es' : List Event} {s s' : State} {a : Action} (h : Alone cfg c s₀ es s)
      (ha : a.By c s) (hs : s.step cfg a = some (s', es')) : Alone cfg c s₀ (es ++ es') s'

/-- The connection failed when a job was read back. -/
def ReadFailed (es : List Event) : Prop := ∃ sid id, .closed sid (.failed (.selectById id)) ∈ es

/-- A job was created or requeued. -/
def Committed (es : List Event) : Prop :=
  ∃ sid op a, .closed sid (.committed op a) ∈ es ∧
    ((∃ j, op = .createJob j) ∨ ∃ id, op = .requeueJob id)

/-- The call waits for the job to be read back. -/
inductive Call.ReadsBack (sid : Sid) (id : JobId) : Call → Prop
  | fetching {j} (hj : j.id = id) : Call.ReadsBack sid id (.fetching j sid)
  | refetching : Call.ReadsBack sid id (.refetching id sid)

/-- How far the call `c` has come since the tables were `t`. -/
inductive Answering (t : Tables) (c : ℕ) (es : List Event) (s : State) : Prop
  /-- Nothing was committed. -/
  | before {x : Call} (hx : s.calls c = some x) (hback : ∀ sid id, ¬ x.ReadsBack sid id)
      (hstore : s.mysql.store = t) (hno : ¬ ReadFailed es) (hc : ¬ Committed es)
  | after {x : Call} {sid : Sid} {id : JobId} {y : Conn} {q : JobRow} (hx : s.calls c = some x)
      (hback : x.ReadsBack sid id) (hy : s.mysql.sessions sid = some y)
      (hop : y.op = .selectById id)
      (hrest : y.rest = selectById id ∨ y.rest = .commit (.row (some q)))
      (hq : s.mysql.store.job? id = some q) (hstore : s.mysql.store ≠ t)
      (hno : ¬ ReadFailed es) (hc : Committed es)
  /-- The job was read back. -/
  | told {r : Response} {id : JobId} {q : JobRow} (hx : s.calls c = some (.answered r))
      (hr : r = .accepted q ∨ r = .requeued q) (hq : s.mysql.store.job? id = some q)
      (hno : ¬ ReadFailed es) (hc : Committed es)
  /-- The job was not read back. -/
  | lost {r : Response} (hx : s.calls c = some (.answered r)) (hr : r.Rejects)
      (hstore : s.mysql.store ≠ t) (hfailed : ReadFailed es) (hc : Committed es)

section Steps

variable {cfg : Config} {t : Tables} {c : ℕ} {es es' : List Event} {s s' : State} {sid : Sid}

theorem readFailed_append :
    ReadFailed (es ++ es') ↔ ReadFailed es ∨ ReadFailed es' := by
  simp only [ReadFailed, List.mem_append, exists_or]

theorem committed_append : Committed (es ++ es') ↔ Committed es ∨ Committed es' := by
  simp only [Committed, List.mem_append, or_and_right, exists_or]

/-- A query reads the tables as they are. -/
theorem exec_reads {m m' : MySQL} {now : ℕ} {f : Tables → Option JobRow} {y : Conn}
    (h : m.exec sid now = some m') (hy : m.sessions sid = some y)
    (hr : y.rest = .read fun _ t => .commit (.row (f t))) :
    ∃ y', m'.sessions sid = some y' ∧ y'.op = y.op ∧ y'.rest = .commit (.row (f m.store)) := by
  simp only [Server.exec, hy, hr] at h
  split at h
  · obtain rfl := Option.some.inj h
    exact ⟨_, Function.update_self .., rfl, rfl⟩
  · cases h

/-- Only a query that reads a job back has an event of its own. -/
theorem Call.ReadsBack.waits {x : Call} {id : JobId} (h : x.ReadsBack sid id) :
    x.Waits sid (.selectById id) := by
  cases h with
  | fetching hj => exact hj ▸ .fetching
  | refetching => exact .refetching

/-- A call waits for one query. -/
theorem Call.Waits.unique {x : Call} {sid' : Sid} {op op' : Op} (h : x.Waits sid op)
    (h' : x.Waits sid' op') : sid' = sid ∧ op' = op := by
  cases h with
  | resolving hj =>
    cases h' with
    | resolving hj' =>
      obtain ⟨rfl, -⟩ := Prod.mk.inj (Option.some.inj (hj.symm.trans hj'))
      exact ⟨rfl, rfl⟩
  | _ =>
    cases h'
    exact ⟨rfl, rfl⟩

theorem readFailed_close {k : Closed Answer Op} (h : ∀ e ∈ es', ∃ r, e = .responded c r) :
    ReadFailed (es ++ .closed sid k :: es') ↔
      ReadFailed es ∨ ∃ id, k = .failed (.selectById id) := by
  rw [readFailed_append]
  refine or_congr_right ⟨fun ⟨sid', id, hmem⟩ => ?_, fun ⟨id, hk⟩ => ⟨sid, id, ?_⟩⟩
  · obtain heq | hmem := List.mem_cons.1 hmem
    · exact ⟨id, (Event.closed.inj heq).2.symm⟩
    · obtain ⟨r, hr⟩ := h _ hmem
      cases hr
  · rw [hk]
    exact List.mem_cons_self

theorem committed_close {k : Closed Answer Op} (h : ∀ e ∈ es', ∃ r, e = .responded c r) :
    Committed (es ++ .closed sid k :: es') ↔ Committed es ∨ ∃ op a, k = .committed op a ∧
      ((∃ j, op = .createJob j) ∨ ∃ id, op = .requeueJob id) := by
  rw [committed_append]
  refine or_congr_right ⟨fun ⟨sid', op, a, hmem, hop⟩ => ?_, fun ⟨op, a, hk, hop⟩ =>
    ⟨sid, op, a, ?_, hop⟩⟩
  · obtain heq | hmem := List.mem_cons.1 hmem
    · exact ⟨op, a, (Event.closed.inj heq).2.symm, hop⟩
    · obtain ⟨r, hr⟩ := h _ hmem
      cases hr
  · rw [hk]
    exact List.mem_cons_self

/-- A call reads a job back once its transaction has committed. -/
theorem Proceeded.back {n : ℕ} {x x' : Call} {a : Option Answer} {fx : Effects} {id : JobId}
    (h : Proceeded n c x a x' fx) (hback : x'.ReadsBack sid id) :
    a = some .done ∧ sid = ⟨.call c, n⟩ ∧ fx.opens = some (.call c, .selectById id) ∧
      ((∃ j sid', x = .creating j sid' ∧ j.id = id) ∨ ∃ sid', x = .requeueing id sid') := by
  cases h with
  | fetch =>
    cases hback with
    | fetching hj => exact ⟨rfl, rfl, by rw [hj], .inl ⟨_, _, rfl, hj⟩⟩
  | refetch =>
    cases hback with
    | refetching => exact ⟨rfl, rfl, rfl, .inr ⟨_, rfl⟩⟩
  | _ => cases hback

/-- The commit that creates or requeues a job changes the tables, and its job is there. -/
theorem Kept.mutated {m m' : MySQL} (hk : Kept cfg m) {how : Closing} {op : Op} {a : Answer}
    {id : JobId} (hclose : m.close sid how = some (m', .committed op a))
    (hop : (∃ j, op = .createJob j ∧ j.id = id) ∨ op = .requeueJob id) :
    a = .done ∧ m'.store ≠ m.store ∧ ∃ q, m'.store.job? id = some q := by
  have habout : about op a = some id := by
    obtain ⟨j, rfl, rfl⟩ | rfl := hop <;> rfl
  obtain ⟨lo, hi, hchange, -⟩ := hk.changes hclose habout
  suffices h : a = .done ∧ m'.store.view id ≠ m.store.view id ∧
      ∃ q, (m'.store.view id).row = some q by
    obtain ⟨ha, hne, hq⟩ := h
    exact ⟨ha, fun heq => hne (by rw [heq]), hq⟩
  generalize m.store.view id = v at hchange ⊢
  generalize m'.store.view id = v' at hchange ⊢
  obtain ⟨j, rfl, hj⟩ | rfl := hop
  · cases hchange with
    | created => exact ⟨rfl, by simp, _, rfl⟩
  · cases hchange with
    | requeued => exact ⟨rfl, by simp [JobRow.requeue], _, rfl⟩

theorem close_op {m m' : MySQL} {how : Closing} {k : Closed Answer Op} {y : Conn}
    (hclose : m.close sid how = some (m', k)) (hy : m.sessions sid = some y) :
    k = .failed y.op ∨ ∃ a, y.rest = .commit a ∧ k = .committed y.op a ∨
      y.rest = .abort a ∧ k = .aborted y.op a := by
  obtain ⟨y', hy', ⟨a, hr, hcl, -⟩ | ⟨a, hr, hcl, -⟩ | ⟨hcl, -⟩⟩ := Server.close_cases hclose
  all_goals obtain rfl := Option.some.inj (hy.symm.trans hy')
  · exact .inr ⟨a, .inl ⟨hr, hcl⟩⟩
  · exact .inr ⟨a, .inr ⟨hr, hcl⟩⟩
  · exact .inl hcl

/-- A transaction or a query of a call has ended, and no job was to be read back. -/
theorem Answering.ended {m : MySQL} {how : Closing} {k : Closed Answer Op} {x x' : Call}
    {fx : Effects} {y : Conn} (hk : Kept cfg s.mysql) (hx : x.Waits sid y.op)
    (hback : ∀ sid id, ¬ x.ReadsBack sid id) (hy : s.mysql.sessions sid = some y)
    (hclose : s.mysql.close sid how = some (m, k))
    (hgo : Call.proceed s.opened c x (answerOf k) = (x', fx)) (hno : ¬ ReadFailed es)
    (hc : ¬ Committed es) :
    Answering s.mysql.store c (es ++ .closed sid k :: fx.events)
      ((State.affect cfg { s with mysql := m } fx).setCall c x') := by
  have hcall : ((State.affect cfg { s with mysql := m } fx).setCall c x').calls c = some x' :=
    Function.update_self ..
  have hstore : ((State.affect cfg { s with mysql := m } fx).setCall c x').mysql.store = m.store :=
    (affect_store fx).1
  have hnew {p : Party} {op : Op} (ho : fx.opens = some (p, op)) :=
    @affect_new cfg { s with mysql := m } fx p op ho
  have hquiet := proceed_responds hgo
  have hopk := close_op hclose hy
  generalize y.op = op at hx hopk
  have hno' : ¬ ReadFailed (es ++ .closed sid k :: fx.events) := by
    rw [readFailed_close hquiet]
    rintro (h | ⟨id, rfl⟩)
    · exact hno h
    · obtain hcl | ⟨a, ⟨-, hcl⟩ | ⟨-, hcl⟩⟩ := hopk
      · obtain rfl := Closed.failed.inj hcl
        cases hx with
        | fetching => exact hback _ _ (.fetching rfl)
        | refetching => exact hback _ _ .refetching
      · cases hcl
      · cases hcl
  by_cases hcom : ∃ op a, k = .committed op a ∧
      ((∃ j, op = .createJob j) ∨ ∃ id, op = .requeueJob id)
  · have hc' : Committed (es ++ .closed sid k :: fx.events) :=
      (committed_close hquiet).2 (.inr hcom)
    obtain ⟨op', a, rfl, hop⟩ := hcom
    obtain rfl : op' = op := by
      obtain hcl | ⟨b, ⟨-, hcl⟩ | ⟨-, hcl⟩⟩ := hopk
      · cases hcl
      · exact (Closed.committed.inj hcl).1
      · cases hcl
    obtain ⟨j, rfl⟩ | ⟨id, rfl⟩ := hop
    · cases hx
      obtain ⟨rfl, hne, q, hq⟩ := hk.mutated hclose (.inl ⟨j, rfl, rfl⟩)
      obtain ⟨rfl, rfl⟩ := Prod.mk.inj hgo
      exact .after hcall (.fetching rfl) (hnew rfl) rfl (.inl rfl) (hstore ▸ hq)
        (hstore ▸ hne) hno' hc'
    · cases hx
      obtain ⟨rfl, hne, q, hq⟩ := hk.mutated hclose (.inr rfl)
      obtain ⟨rfl, rfl⟩ := Prod.mk.inj hgo
      exact .after hcall .refetching (hnew rfl) rfl (.inl rfl) (hstore ▸ hq)
        (hstore ▸ hne) hno' hc'
  · have hsame : m.store = s.mysql.store := by
      refine hk.quiet hclose fun op' a hcl => ?_
      obtain rfl | ⟨b, ⟨-, rfl⟩ | ⟨-, rfl⟩⟩ := hopk
      · cases hcl
      · obtain ⟨rfl, rfl⟩ := Closed.committed.inj hcl
        cases hx with
        | creating => exact absurd ⟨_, _, rfl, .inl ⟨_, rfl⟩⟩ hcom
        | requeueing => exact absurd ⟨_, _, rfl, .inr ⟨_, rfl⟩⟩ hcom
        | _ => rfl
      · cases hcl
    refine .before hcall (fun sid' id h => ?_) (hstore.trans hsame) hno' ?_
    · obtain ⟨ha, -, -, hx'⟩ := (proceed_cases hgo).back h
      obtain rfl | ⟨a, ⟨-, rfl⟩ | ⟨-, rfl⟩⟩ := hopk
      · cases ha
      · refine hcom ⟨_, _, rfl, ?_⟩
        obtain ⟨j, _, rfl, -⟩ | ⟨_, rfl⟩ := hx'
        · cases hx
          exact .inl ⟨_, rfl⟩
        · cases hx
          exact .inr ⟨_, rfl⟩
      · obtain ⟨-, _, _, -, -, hwhy, -⟩ := hk.abort hclose
        obtain rfl := Option.some.inj ha
        cases hwhy
    · rw [committed_close hquiet]
      exact fun h => h.elim hc hcom

/-- The query that reads a job back has ended. -/
theorem Answering.readBack {m : MySQL} {how : Closing} {k : Closed Answer Op} {x x' : Call}
    {fx : Effects} {y : Conn} {id : JobId} {q : JobRow} (hk : Kept cfg s.mysql)
    (hback : x.ReadsBack sid id) (hy : s.mysql.sessions sid = some y) (hop : y.op = .selectById id)
    (hrest : y.rest = selectById id ∨ y.rest = .commit (.row (some q)))
    (hq : s.mysql.store.job? id = some q) (hne : s.mysql.store ≠ t)
    (hclose : s.mysql.close sid how = some (m, k))
    (hgo : Call.proceed s.opened c x (answerOf k) = (x', fx)) (hno : ¬ ReadFailed es)
    (hc : Committed es) :
    Answering t c (es ++ .closed sid k :: fx.events)
      ((State.affect cfg { s with mysql := m } fx).setCall c x') := by
  have hcall : ((State.affect cfg { s with mysql := m } fx).setCall c x').calls c = some x' :=
    Function.update_self ..
  have hquiet := proceed_responds hgo
  have hc' : Committed (es ++ .closed sid k :: fx.events) := (committed_close hquiet).2 (.inl hc)
  have hsame : m.store = s.mysql.store := by
    refine hk.quiet hclose fun op a hcl => ?_
    obtain hfailed | ⟨b, ⟨-, heq⟩ | ⟨-, heq⟩⟩ := close_op hclose hy
    · cases hcl.symm.trans hfailed
    · obtain ⟨rfl, -⟩ := Closed.committed.inj (hcl.symm.trans heq)
      rw [hop]
      rfl
    · cases hcl.symm.trans heq
  have hstore : ((State.affect cfg { s with mysql := m } fx).setCall c x').mysql.store =
      s.mysql.store := (affect_store fx).1.trans hsame
  obtain rfl | ⟨a, ⟨hr, rfl⟩ | ⟨hr, rfl⟩⟩ := close_op hclose hy
  · rw [hop] at *
    have hfailed : ReadFailed (es ++ .closed sid (.failed (.selectById id)) :: fx.events) :=
      (readFailed_close hquiet).2 (.inr ⟨id, rfl⟩)
    cases hback with
    | fetching =>
      obtain ⟨rfl, rfl⟩ := Prod.mk.inj hgo
      exact .lost hcall trivial (hstore ▸ hne) hfailed hc'
    | refetching =>
      obtain ⟨rfl, rfl⟩ := Prod.mk.inj hgo
      exact .lost hcall trivial (hstore ▸ hne) hfailed hc'
  · obtain rfl : a = .row (some q) := by
      obtain h | h := hrest
      · cases hr.symm.trans h
      · exact Script.commit.inj (hr.symm.trans h)
    have hno' :
        ¬ ReadFailed (es ++ .closed sid (.committed y.op (.row (some q))) :: fx.events) := by
      rw [readFailed_close hquiet]
      rintro (h | ⟨_, h⟩)
      · exact hno h
      · cases h
    cases hback with
    | fetching =>
      obtain ⟨rfl, rfl⟩ := Prod.mk.inj hgo
      exact .told hcall (.inl rfl) (hstore ▸ hq) hno' hc'
    | refetching =>
      obtain ⟨rfl, rfl⟩ := Prod.mk.inj hgo
      exact .told hcall (.inr rfl) (hstore ▸ hq) hno' hc'
  · obtain h | h := hrest <;> cases hr.symm.trans h

theorem Answering.step {a : Action} (h : Answering t c es s) (hk : Kept cfg s.mysql)
    (hp : Paired none s) (ha : a.By c s) (hs : Stepped cfg s a s' es') :
    Answering t c (es ++ es') s' := by
  cases hs with
  | advance d =>
    rw [List.append_nil]
    cases h with
    | before hx hback hstore hno hc => exact .before hx hback hstore hno hc
    | after hx hback hy hop hrest hq hstore hno hc =>
      exact .after hx hback hy hop hrest hq hstore hno hc
    | told hx hr hq hno hc => exact .told hx hr hq hno hc
    | lost hx hr hstore hfailed hc => exact .lost hx hr hstore hfailed hc
  | @exec sid now db hexec =>
    obtain ⟨op, x', hx', hwaits⟩ := ha
    rw [List.append_nil]
    have hsame : db.store = s.mysql.store := (Server.exec_cases hexec).1
    cases h with
    | before hx hback hstore hno hc => exact .before hx hback (hsame.trans hstore) hno hc
    | @after x sid' id y q hx hback hy hop hrest hq hstore hno hc =>
      obtain rfl := Option.some.inj (hx.symm.trans hx')
      obtain ⟨rfl, -⟩ := hwaits.unique hback.waits
      rcases hrest with hrest | hrest
      · obtain ⟨y', hy', hop', hrest'⟩ := exec_reads hexec hy hrest
        exact .after hx hback hy' (hop'.trans hop) (.inr (hrest'.trans (by rw [hq])))
          (hsame ▸ hq) (hsame ▸ hstore) hno hc
      · simp [Server.exec, hy, hrest] at hexec
    | told hx hr hq hno hc => exact .told hx hr (hsame ▸ hq) hno hc
    | lost hx hr hstore hfailed hc => exact .lost hx hr (hsame ▸ hstore) hfailed hc
  | @close sid how db k _ es' hclose hd =>
    obtain ⟨op, hw⟩ := ha
    have hparty := (hp.party _ _ _ hw).1
    obtain hnone | ⟨y, hy, x, hx, hwaits⟩ := hp.waited _ _ _ hw
    · cases hnone
    cases hd with
    | worker hw => obtain h | h := hw <;> simp [h, Party.client] at hparty
    | dispatcher h => simp [h, Party.client] at hparty
    | nobody _ _ hcalls =>
      refine absurd hwaits.session (hcalls c x ?_ hx)
      cases hp' : sid.party <;> simp_all [Party.client]
    | @call c' x₁ x' fx hp' hx₁ _ hgo =>
      obtain rfl : c' = c := by simpa [hp', Party.client] using hparty
      obtain rfl : x = x₁ := Option.some.inj (hx.symm.trans hx₁)
      cases h with
      | before hx' hback hstore hno hc =>
        obtain rfl := Option.some.inj (hx.symm.trans hx')
        obtain rfl := hstore
        exact .ended hk hwaits hback hy hclose hgo hno hc
      | after hx' hback hy' hop hrest hq hstore hno hc =>
        obtain rfl := Option.some.inj (hx.symm.trans hx')
        obtain ⟨rfl, -⟩ := hwaits.unique hback.waits
        obtain rfl := Option.some.inj (hy.symm.trans hy')
        exact .readBack hk hback hy hop hrest hq hstore hclose hgo hno hc
      | told hx' =>
        obtain rfl := Option.some.inj (hx.symm.trans hx')
        cases hwaits
      | lost hx' =>
        obtain rfl := Option.some.inj (hx.symm.trans hx')
        cases hwaits
  | _ => exact absurd ha id

theorem Alone.run {s₀ : State} (h : Alone cfg c s₀ es s) : Run cfg s₀ es s := by
  induction h with
  | refl => exact .refl
  | step _ _ hs ih => exact ih.step hs

/-- A call that has just come in has committed nothing. -/
theorem Answering.start {a : Action} (ha : a.Calls c) (hs : Stepped cfg s a s' es) :
    Answering s.mysql.store c [] s' := by
  have hno : ¬ ReadFailed [] := by simp [ReadFailed]
  have hc : ¬ Committed [] := by simp [Committed]
  obtain ⟨clientId, header, input, id, rfl⟩ | ⟨id, rfl⟩ := ha
  · cases hs with
    | badKey => exact .before (Function.update_self ..) (fun _ _ h => by cases h) rfl hno hc
    | createJob =>
      exact .before (Function.update_self ..) (fun _ _ h => by cases h) rfl hno hc
  · cases hs
    exact .before (Function.update_self ..) (fun _ _ h => by cases h) rfl hno hc

theorem Answering.alone {es₀ : List Event} {s₀ s₁ : State} (h₀ : Initial s₀) (h : Run cfg s₀ es₀ s₁)
    (h₁ : Answering t c [] s₁) (h' : Alone cfg c s₁ es s) : Answering t c es s := by
  induction h' with
  | refl => exact h₁
  | step ha hby hs ih =>
    have hrun := h.trans ha.run
    exact ih.step (hrun.kept h₀) (hrun.paired h₀) hby (step_cases hs)

end Steps

/-- When a call has answered, an error means that the tables are as before, and a commit
    means that the caller is given the job, exactly if the connection did not fail at
    the query that reads the job back. -/
theorem rejections_keep {cfg : Config} {s₀ s s₁ s' : State} {es₀ es₁ es : List Event} {a : Action}
    {c : ℕ} {r : Response} (h₀ : Initial s₀) (h : Run cfg s₀ es₀ s) (ha : a.Calls c)
    (hs : s.step cfg a = some (s₁, es₁)) (h' : Alone cfg c s₁ es s')
    (hr : s'.calls c = some (.answered r)) :
    ((r.Rejects → s'.mysql.store = s.mysql.store) ↔ ¬ ReadFailed es) ∧
    ((Committed es → ∃ id q, s'.mysql.store.job? id = some q ∧
      (r = .accepted q ∨ r = .requeued q)) ↔ ¬ ReadFailed es) := by
  have hanswering := Answering.alone h₀ (h.step hs) (.start ha (step_cases hs)) h'
  cases hanswering with
  | before hx hback hstore hno hc =>
    exact ⟨iff_of_true (fun _ => hstore) hno, iff_of_true (fun h => absurd h hc) hno⟩
  | after hx hback =>
    obtain rfl := Option.some.inj (hr.symm.trans hx)
    cases hback
  | @told r' id q hx htold hq hno hc =>
    obtain rfl := Call.answered.inj (Option.some.inj (hr.symm.trans hx))
    refine ⟨iff_of_true (fun hrej => ?_) hno, iff_of_true (fun _ => ⟨id, q, hq, htold⟩) hno⟩
    obtain rfl | rfl := htold <;> exact hrej.elim
  | @lost r' hx hrej hne hfailed hc =>
    obtain rfl := Call.answered.inj (Option.some.inj (hr.symm.trans hx))
    refine ⟨iff_of_false (fun h => hne (h hrej)) (not_not.2 hfailed),
      iff_of_false (fun h => ?_) (not_not.2 hfailed)⟩
    obtain ⟨id, q, -, rfl | rfl⟩ := h hc <;> exact hrej

/-- A first call of `createJob`. -/
def firstCall : Action := .createJob 0 [] none firstInput firstJob

/-- The first call and what follows, as far as it is on its own. -/
def Lonely (acts : List Action) : Prop :=
  Alone (.defaults id) 0 (State.after [firstCall]).1 ((State.after (firstCall :: acts)).2.drop 1)
    (State.after (firstCall :: acts)).1

/-- A first `createJob` whose connection fails at once. -/
theorem rejections_keep_first :
    let s' := (State.after [firstCall, .close ⟨.call 0, 0⟩ .fail]).1
    s'.calls 0 = some (.answered .internal) ∧ s'.mysql.store = .empty := by
  have hs : State.fresh.step (.defaults id) firstCall = some (State.after [firstCall]) := rfl
  have h' : Lonely [.close ⟨.call 0, 0⟩ .fail] :=
    Alone.refl.step (a := .close ⟨.call 0, 0⟩ .fail) ⟨_, _, rfl, .creating⟩ rfl
  refine ⟨rfl, ((rejections_keep .fresh .refl (.inl ⟨_, _, _, _, rfl⟩) hs h' rfl).1.2 ?_) trivial⟩
  rintro ⟨sid, jobId, hmem⟩
  have hmem : Event.closed sid (.failed (.selectById jobId)) ∈
      [.closed ⟨.call 0, 0⟩ (.failed (.createJob (newJob (.defaults id) firstInput firstJob none))),
        .responded 0 .internal] := hmem
  simp at hmem

/-- A first job is created, and the connection fails before it is read back. -/
theorem rejections_lose : ¬ ∀ (cfg : Config) (s₀ s s₁ s' : State) (es₀ es₁ es : List Event)
    (a : Action) (c : ℕ) (r : Response), Initial s₀ → Run cfg s₀ es₀ s → a.Calls c →
    s.step cfg a = some (s₁, es₁) → Alone cfg c s₁ es s' → s'.calls c = some (.answered r) →
    (r.Rejects → s'.mysql.store = s.mysql.store) ∧
      (Committed es → ∃ id q, s'.mysql.store.job? id = some q ∧
        (r = .accepted q ∨ r = .requeued q)) := by
  intro hall
  let exec : Action := .exec ⟨.call 0, 0⟩ 0
  let commit : Action := .close ⟨.call 0, 0⟩ .commit
  have hs : State.fresh.step (.defaults id) firstCall = some (State.after [firstCall]) := rfl
  have h₀ : Lonely [] := .refl
  have h₁ : Lonely [exec] := h₀.step (a := exec) ⟨_, _, rfl, .creating⟩ rfl
  have h₂ : Lonely [exec, exec] := h₁.step (a := exec) ⟨_, _, rfl, .creating⟩ rfl
  have h₃ : Lonely [exec, exec, exec] := h₂.step (a := exec) ⟨_, _, rfl, .creating⟩ rfl
  have h₄ : Lonely [exec, exec, exec, commit] :=
    h₃.step (a := commit) ⟨_, _, rfl, .creating⟩ rfl
  have h₅ : Lonely [exec, exec, exec, commit, .close ⟨.call 0, 1⟩ .fail] :=
    (h₄.step (a := .close ⟨.call 0, 1⟩ .fail) ⟨_, _, rfl, .fetching⟩ rfl :)
  have h := (hall _ _ _ _ _ _ _ _ _ _ _ .fresh .refl (.inl ⟨_, _, _, _, rfl⟩) hs h₅ rfl).1 trivial
  have hjob := congrArg (fun t => (Tables.job? t firstJob).isSome) h
  exact Bool.noConfusion (hjob : true = false)

end ScaleQueue
