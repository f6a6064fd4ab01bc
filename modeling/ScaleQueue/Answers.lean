import ScaleQueue.Locking.Serial
import ScaleQueue.Rejections
import ScaleQueue.Requests

/-!
# The answers of the API

A call of `createJob` or `requeueJob` runs while anything else happens. What it answers
is true of the tables at some moment while it ran: the row in the answer was there just
like that, after the transaction of the call had committed, or without one if the job
was there already; a conflict, and a job that is not found or cannot be requeued, were
there as well (`Truthful`). And besides the one transaction that it tells of, a call has
committed nothing (`answers_truthful`).

All that anyone is told, and all that is written, is as if one transaction came after the
other (`runs_serialize`).
-/

namespace ScaleQueue

open Locking

/-- The transactions that the call has committed. -/
def commits (c : ℕ) (es : List Event) : List Op :=
  es.filterMap fun
    | .closed sid (.committed op a) =>
      if sid.party = .call c ∧ (about op a).isSome then some op else none
    | _ => none

/-- In a run from `s`, there was a moment at which the call had committed just `ops`, and
    `P` held. -/
def During (cfg : Config) (s : State) (c : ℕ) (es : List Event) (s' : State) (ops : List Op)
    (P : State → Prop) : Prop :=
  ∃ es₁ es₂ t, es = es₁ ++ es₂ ∧ Run cfg s es₁ t ∧ Run cfg t es₂ s' ∧ commits c es₁ = ops ∧ P t

/-- There was such a moment at which `P` held of the tables. -/
abbrev Once (cfg : Config) (s : State) (c : ℕ) (es : List Event) (s' : State) (ops : List Op)
    (P : Tables → Prop) : Prop :=
  During cfg s c es s' ops fun t => P t.mysql.store

/-- The call waits for the read after its `COMMIT`. -/
def Call.reading : Call → Bool
  | .fetching _ _ | .refetching _ _ => true
  | _ => false

/-- The call comes in, for the operation. -/
inductive Asked (cfg : Config) (c : ℕ) : Action → Op → Prop
  | createJob {clientId header key input id} (hkey : requestKeyOf clientId header = some key) :
      Asked cfg c (.createJob c clientId header input id) (.createJob (newJob cfg input id key))
  | requeueJob {id} : Asked cfg c (.requeueJob c id) (.requeueJob id)

/-- What the call answers is true, in a run since it came in. -/
inductive Truthful (cfg : Config) (s : State) (c : ℕ) (es : List Event) (s' : State) :
    Op → Response → Prop
  | created {j r} (hc : commits c es = [.createJob j])
      (hr : Once cfg s c es s' [.createJob j] fun t => t.job? j.id = some r) :
      Truthful cfg s c es s' (.createJob j) (.accepted r)
  /-- The request was accepted before. -/
  | replayed {j r k h} (hj : j.request = some (k, h)) (hc : commits c es = [])
      (hkey : r.requestKey = some k) (hhash : r.requestHash = some h)
      (hr : Once cfg s c es s' [] fun t => t.job? r.id = some r) :
      Truthful cfg s c es s' (.createJob j) (.accepted r)
  | conflict {j r k h} (hj : j.request = some (k, h)) (hc : commits c es = [])
      (hkey : r.requestKey = some k) (hhash : r.requestHash ≠ some h)
      (hr : Once cfg s c es s' [] fun t => t.job? r.id = some r) :
      Truthful cfg s c es s' (.createJob j) .conflict
  | requeued {id r} (hc : commits c es = [.requeueJob id])
      (hr : Once cfg s c es s' [.requeueJob id] fun t => t.job? id = some r) :
      Truthful cfg s c es s' (.requeueJob id) (.requeued r)
  | notFound {id} (hc : commits c es = [])
      (hr : Once cfg s c es s' [] fun t => t.job? id = none) :
      Truthful cfg s c es s' (.requeueJob id) .notFound
  | notRequeueable {id r} (hc : commits c es = []) (hdead : r.status ≠ .dead)
      (hfailed : r.status ≠ .failed) (hr : Once cfg s c es s' [] fun t => t.job? id = some r) :
      Truthful cfg s c es s' (.requeueJob id) .notRequeueable
  /-- The call has failed. It has committed nothing, unless the commit was still on its way
      when the connection was lost, or the read after it has failed. -/
  | internal {op} (hc : commits c es = [] ∨ commits c es = [op] ∧
        ((During cfg s c es s' [] fun t => t.calls c = some (.answered .internal)) ∨
          During cfg s c es s' [op] fun t => ∃ x ∈ t.calls c, x.reading = true)) :
      Truthful cfg s c es s' op .internal

section Commits

variable {cfg : Config} {c : ℕ} {es es' : List Event} {sid : Sid} {s s' t : State} {ops : List Op}
  {P : State → Prop}

theorem commits_append : commits c (es ++ es') = commits c es ++ commits c es' :=
  List.filterMap_append

theorem commits_eq_nil (h : ∀ sid k, .closed sid k ∉ es) : commits c es = [] := by
  refine List.filterMap_eq_nil_iff.2 fun e he => ?_
  cases e with
  | closed sid k => exact absurd he (h sid k)
  | _ => rfl

theorem commits_other {k : Closed Answer Op} (h : sid.party ≠ .call c) :
    commits c (.closed sid k :: es) = commits c es := by
  refine List.filterMap_cons_none ?_
  cases k with
  | committed => exact if_neg fun hno => h hno.1
  | _ => rfl

theorem commits_committed {op : Op} {a : Answer} {id : JobId} (hparty : sid.party = .call c)
    (habout : about op a = some id) (h : ∀ sid k, .closed sid k ∉ es) :
    commits c (.closed sid (.committed op a) :: es) = [op] := by
  have hrest := commits_eq_nil (c := c) h
  simp only [commits] at hrest ⊢
  simp [hparty, habout, hrest]

theorem During.now (h : Run cfg s es s') (hP : P s') : During cfg s c es s' (commits c es) P :=
  ⟨es, [], s', (List.append_nil _).symm, h, .refl, rfl, hP⟩

theorem During.later (h : During cfg s c es t ops P) (h' : Run cfg t es' s') :
    During cfg s c (es ++ es') s' ops P := by
  obtain ⟨es₁, es₂, u, rfl, h₁, h₂, hc, hP⟩ := h
  exact ⟨es₁, es₂ ++ es', u, List.append_assoc _ _ _, h₁, h₂.trans h', hc, hP⟩

theorem During.mono {Q : State → Prop} (h : During cfg s c es t ops P) (hPQ : ∀ u, P u → Q u) :
    During cfg s c es t ops Q := by
  obtain ⟨es₁, es₂, u, he, h₁, h₂, hc, hP⟩ := h
  exact ⟨es₁, es₂, u, he, h₁, h₂, hc, hPQ _ hP⟩

theorem During.holds (h : During cfg s c es t ops P) : ∃ u, P u := by
  obtain ⟨-, -, u, -, -, -, -, hP⟩ := h
  exact ⟨_, hP⟩

/-- What was true stays true, until the call commits something. -/
theorem Truthful.later {op : Op} {r : Response} (h : Truthful cfg s c es t op r)
    (h' : Run cfg t es' s') (hno : commits c es' = []) :
    Truthful cfg s c (es ++ es') s' op r := by
  have hsame : commits c (es ++ es') = commits c es := by
    rw [commits_append, hno, List.append_nil]
  cases h with
  | created hc hr => exact .created (hsame.trans hc) (hr.later h')
  | replayed hj hc hkey hhash hr => exact .replayed hj (hsame.trans hc) hkey hhash (hr.later h')
  | conflict hj hc hkey hhash hr => exact .conflict hj (hsame.trans hc) hkey hhash (hr.later h')
  | requeued hc hr => exact .requeued (hsame.trans hc) (hr.later h')
  | notFound hc hr => exact .notFound (hsame.trans hc) (hr.later h')
  | notRequeueable hc hdead hfailed hr =>
    exact .notRequeueable (hsame.trans hc) hdead hfailed (hr.later h')
  | internal hc =>
    refine .internal ?_
    rw [hsame]
    exact hc.imp_right fun ⟨hone, hwhy⟩ =>
      ⟨hone, hwhy.imp (fun hgave => hgave.later h') fun hread => hread.later h'⟩

end Commits

/-! ## The sessions of a call -/

/-- The only session of a call is the one that it waits for, unless it has given one up. -/
def State.Tended (s : State) : Prop :=
  ∀ sid y c, s.mysql.sessions sid = some y → sid.party = .call c →
    ∃ x, s.calls c = some x ∧ (x = .answered .internal ∨ x.session? = some sid)

section Tended

variable {cfg : Config} {s s' t : State} {es : List Event} {sid : Sid} {a : Action}

/-- The sessions of the calls are those that were there. -/
theorem State.Tended.of_sessions (h : s.Tended) (hcalls : t.calls = s.calls)
    (hs : ∀ sid y, t.mysql.sessions sid = some y →
      (∃ y', s.mysql.sessions sid = some y') ∨ ∀ c, sid.party ≠ .call c) : t.Tended := by
  intro sid y c hy hparty
  rcases hs sid y hy with ⟨y', hy'⟩ | hno
  · rw [hcalls]
    exact h sid y' c hy' hparty
  · exact absurd hparty (hno c)

theorem State.Tended.affect (h : s.Tended) (fx : Effects)
    (hcalls : t.calls = s.calls) (hmysql : t.mysql = (s.affect cfg fx).mysql)
    (ho : ∀ p op, fx.opens = some (p, op) → ∀ c, p ≠ .call c) : t.Tended := by
  refine h.of_sessions hcalls fun sid y hy => ?_
  rw [hmysql] at hy
  rcases affect_opens fx hy with hold | ⟨p, op, hop, rfl, -⟩
  · exact .inl hold
  · exact .inr (ho p op hop)

theorem Acted.party {w : WorkerId} {x x' : Worker} {fx : Effects} (h : Acted s w x x' fx)
    {p : Party} {op : Op} (ho : fx.opens = some (p, op)) (c : ℕ) : p ≠ .call c := by
  cases h <;> simp_all <;> rintro rfl <;> simp_all

/-- A call that starts, or goes on when its session is gone. -/
theorem State.Tended.call {c : ℕ} {x' : Call} {fx : Effects} (h : s.Tended)
    (hgone : x' = .answered .internal ∨ ∀ sid y, s.mysql.sessions sid = some y →
      sid.party ≠ .call c)
    (ho : ∀ p op, fx.opens = some (p, op) → p = .call c ∧
      x'.session? = some ⟨.call c, s.opened⟩) : ((s.affect cfg fx).setCall c x').Tended := by
  intro sid y c' hy hparty
  have hcall : ((s.affect cfg fx).setCall c x').calls = Function.update s.calls c (some x') := rfl
  rw [hcall]
  rcases eq_or_ne c' c with rfl | hne
  · refine ⟨x', Function.update_self _ _ _, ?_⟩
    rcases affect_opens fx hy with ⟨y', hy'⟩ | ⟨p, op, hop, rfl, -⟩
    · exact hgone.imp_right fun hno => absurd hparty (hno sid y' hy')
    · obtain ⟨rfl, hsid⟩ := ho p op hop
      exact .inr hsid
  · rw [Function.update_of_ne hne]
    rcases affect_opens fx hy with ⟨y', hy'⟩ | ⟨p, op, hop, rfl, -⟩
    · exact h sid y' c' hy' hparty
    · exact absurd (Party.call.inj ((ho p op hop).1.symm.trans hparty)).symm hne

theorem proceed_session {n c : ℕ} {x x' : Call} {b : Option Answer} {fx : Effects}
    (h : Call.proceed n c x b = (x', fx)) (p : Party) (op : Op) (ho : fx.opens = some (p, op)) :
    p = .call c ∧ x'.session? = some ⟨.call c, n⟩ := by
  obtain ⟨-, ⟨hnone, -⟩ | ⟨op', hop, hw, -⟩⟩ := proceed_waits h
  · simp [hnone] at ho
  · obtain ⟨rfl, rfl⟩ := Prod.mk.inj (Option.some.inj (hop.symm.trans ho))
    exact ⟨rfl, hw.session⟩

theorem State.Tended.delivered {b : Option Answer} (h : t.Tended)
    (hgone : b = none ∨ t.mysql.sessions sid = none) (hd : Delivered cfg t sid b s' es) :
    s'.Tended := by
  cases hd with
  | nobody => exact h
  | worker _ _ hx =>
    exact h.affect _ rfl rfl (by simp [(returned_effects hx).1])
  | dispatcher => exact h
  | @call c x x' fx hparty hx hsid hp =>
    refine h.call ?_ (proceed_session hp)
    rcases hgone with rfl | hgone
    · refine .inl ?_
      cases x <;> exact (Prod.mk.inj hp).1.symm
    · refine .inr fun sid' y hy hparty' => ?_
      obtain ⟨x₁, hx₁, hwhy⟩ := h sid' y c hy hparty'
      obtain rfl := Option.some.inj (hx.symm.trans hx₁)
      rcases hwhy with rfl | hsid'
      · cases hsid
      · obtain rfl := Option.some.inj (hsid.symm.trans hsid')
        simp [hgone] at hy

theorem State.Tended.step (h : s.Tended) (hs : Stepped cfg s a s' es) : s'.Tended := by
  have vacant {c : ℕ} (hc : s.calls c = none) (sid : Sid) (y : Conn)
      (hy : s.mysql.sessions sid = some y) : sid.party ≠ .call c := by
    intro hparty
    obtain ⟨x, hx, -⟩ := h sid y c hy hparty
    cases hc.symm.trans hx
  cases hs with
  | advance => exact h
  | exec hm =>
    exact h.of_sessions rfl fun sid y hy => .inl <| by
      obtain ⟨y', hy', -⟩ := (exec_sessions hm).1 sid y hy
      exact ⟨y', hy'⟩
  | @close sid how m k _ _ hm hd =>
    have hclosed := close_sessions hm
    have hmem : State.Tended { s with mysql := m } := h.of_sessions rfl fun sid' y hy => .inl <| by
      rcases eq_or_ne sid' sid with rfl | hne
      · simp [hclosed] at hy
      · exact ⟨y, by simpa [hclosed, hne] using hy⟩
    exact hmem.delivered (.inr (by simp [hclosed])) hd
  | @giveUp sid x _ _ hy hd =>
    have hleft : (s.forsake sid x).Tended := h.of_sessions rfl fun sid' y hy' => .inl <| by
      unfold State.forsake at hy'
      split at hy'
      · exact ⟨y, hy'⟩
      · rcases eq_or_ne sid' sid with rfl | hne
        · exact ⟨x, hy⟩
        · exact ⟨y, by simpa [Server.leave, hne] using hy'⟩
    exact hleft.delivered (.inl rfl) hd
  | publish _ hm =>
    exact h.of_sessions rfl fun sid y hy => .inl <| by
      obtain ⟨y', hy', -⟩ := (answer_sessions hm).1 sid y hy
      exact ⟨y', hy'⟩
  | publishLost _ hm =>
    exact h.of_sessions rfl fun sid y hy => .inl <| by
      obtain ⟨y', hy', -⟩ := (answer_sessions hm).1 sid y hy
      exact ⟨y', hy'⟩
  | worker hw _ hx => exact h.affect _ rfl rfl fun p op ho => (act_cases hx).party ho
  | @dispatch d =>
    refine h.affect { opens := some (.dispatcher d, .dispatch) } rfl rfl fun p op ho c => ?_
    obtain ⟨rfl, -⟩ := Prod.mk.inj (Option.some.inj ho)
    simp
  | @crashDispatcher d x =>
    have hleft : (s.affect cfg { leaves := x.session }).Tended :=
      h.affect { leaves := x.session } rfl rfl (by simp)
    exact hleft
  | @badKey c _ _ _ _ hc =>
    have hin : ((s.affect cfg {}).setCall c (.answered .invalid)).Tended :=
      h.call (.inr (vacant hc)) (by simp)
    exact hin
  | createJob hc =>
    refine h.call (.inr (vacant hc)) fun p op ho => ?_
    obtain ⟨rfl, -⟩ := Prod.mk.inj (Option.some.inj ho)
    exact ⟨rfl, rfl⟩
  | requeueJob hc =>
    refine h.call (.inr (vacant hc)) fun p op ho => ?_
    obtain ⟨rfl, -⟩ := Prod.mk.inj (Option.some.inj ho)
    exact ⟨rfl, rfl⟩
  | _ => exact h

theorem Run.tended {s₀ : State} (h : Run cfg s₀ es s) (h₀ : Initial s₀) : s.Tended := by
  induction h with
  | refl => exact fun sid y c hy => by simp [h₀.sessions] at hy
  | step _ hs ih => exact ih.step (step_cases hs)

end Tended

/-! ## Calls that come in -/

section Calls

variable {cfg : Config} {s s' s₀ : State} {es : List Event} {sid : Sid} {a : Action} {y : Conn}
  {op : Op} {c : ℕ}

/-- A session that was not there has been opened by the effects. -/
theorem affect_fresh (fx : Effects) (hnew : ∀ y, s.mysql.sessions sid ≠ some y)
    (hy : (s.affect cfg fx).mysql.sessions sid = some y) : fx.opens = some (sid.party, y.op) := by
  obtain ⟨y', hy'⟩ | ⟨p, op, ho, rfl, rfl⟩ := affect_opens fx hy
  · exact absurd hy' (hnew y')
  · exact ho

/-- A transaction that is to requeue a job is that of a call that came in for it. -/
theorem Stepped.requeue_opened (hs : Stepped cfg s a s' es)
    (hnew : ∀ y, s.mysql.sessions sid ≠ some y) (hy : s'.mysql.sessions sid = some y)
    {id : JobId} (hop : y.op = .requeueJob id) :
    ∃ c, sid.party = .call c ∧ a = .requeueJob c id := by
  have delivered {t : State} {sid' : Sid} {b : Option Answer} {es : List Event}
      (ht : ∀ y, t.mysql.sessions sid ≠ some y) (hd : Delivered cfg t sid' b s' es) : False := by
    cases hd with
    | nobody => exact ht _ hy
    | worker _ _ hx => simpa [(returned_effects hx).1] using affect_fresh _ ht hy
    | dispatcher => exact ht _ hy
    | call _ _ _ hgo =>
      -- A call that goes on opens a query.
      have ho := affect_fresh _ ht hy
      rw [hop] at ho
      cases proceed_cases hgo <;> simp at ho
  cases hs with
  | exec hm =>
    obtain ⟨y', hy', -⟩ := (exec_sessions hm).1 sid y hy
    exact absurd hy' (hnew y')
  | @close sid' _ _ _ _ _ hm hd =>
    refine (delivered (fun y hy => ?_) hd).elim
    rcases eq_or_ne sid sid' with rfl | hne
    · simp [close_sessions hm] at hy
    · exact hnew y (by simpa [close_sessions hm, hne] using hy)
  | @giveUp sid' x _ _ hx hd =>
    refine (delivered (fun y hy => ?_) hd).elim
    unfold State.forsake at hy
    split at hy
    · exact hnew y hy
    · rcases eq_or_ne sid sid' with rfl | hne
      · exact hnew x hx
      · exact hnew y (by simpa [Server.leave, hne] using hy)
  | publish _ hm =>
    obtain ⟨y', hy', -⟩ := (answer_sessions hm).1 sid y hy
    exact absurd hy' (hnew y')
  | publishLost _ hm =>
    obtain ⟨y', hy', -⟩ := (answer_sessions hm).1 sid y hy
    exact absurd hy' (hnew y')
  | worker _ _ hx =>
    have ho := affect_fresh _ hnew hy
    rw [hop] at ho
    cases act_cases hx <;> simp_all
  | @dispatch d =>
    have ho := affect_fresh { opens := some (.dispatcher d, .dispatch) } hnew hy
    cases hop.symm.trans (Prod.mk.inj (Option.some.inj ho)).2.symm
  | @crashDispatcher d x =>
    have hleft : (s.affect cfg { leaves := x.session }).mysql.sessions sid = some y := hy
    cases affect_fresh _ hnew hleft
  | @createJob c _ _ key input id' =>
    have ho :=
      affect_fresh { opens := some (.call c, .createJob (newJob cfg input id' key)) } hnew hy
    cases hop.symm.trans (Prod.mk.inj (Option.some.inj ho)).2.symm
  | @requeueJob c id' =>
    have ho := affect_fresh { opens := some (.call c, .requeueJob id') } hnew hy
    obtain ⟨hparty, hop'⟩ := Prod.mk.inj (Option.some.inj ho)
    obtain rfl := Op.requeueJob.inj (hop'.trans hop)
    exact ⟨c, hparty.symm, rfl⟩
  | _ => exact absurd hy (hnew y)

/-- A transaction that is to create or requeue a job is that of a call that came in for it. -/
theorem Stepped.asks (hs : Stepped cfg s a s' es) (hp : Paired none s)
    (hy : s'.mysql.sessions sid = some y)
    (hop : (∃ j, y.op = .createJob j) ∨ ∃ id, y.op = .requeueJob id) :
    (∃ y', s.mysql.sessions sid = some y' ∧ y'.op = y.op) ∨
      ∃ c, sid.party = .call c ∧ Asked cfg c a y.op := by
  cases hs.continues hp hy with
  | stays hy' hop' => exact .inl ⟨_, hy', hop'.symm⟩
  | runs _ hy' hop' => exact .inl ⟨_, hy', hop'.symm⟩
  | answered hy' hop' => exact .inl ⟨_, hy', hop'.symm⟩
  | opened hnum _ _ hby =>
    have hnew (y : Conn) : s.mysql.sessions sid ≠ some y := fun hy => by
      have := hp.number sid y hy
      omega
    obtain ⟨j, hop⟩ | ⟨id, hop⟩ := hop
    · rw [hop] at hby ⊢
      generalize sid.party = p at hby ⊢
      cases hby with
      | @createJob c _ _ key input id hkey he =>
        obtain hnil | ⟨c', clientId, header, key', input', id', rfl, -, hkey', hone⟩ := hs.calling
        · exact absurd (mem_called.2 he) (by simp [hnil])
        · have hmem := mem_called.2 he
          rw [hone, List.mem_singleton] at hmem
          obtain ⟨rfl, hj⟩ := Prod.mk.inj hmem
          exact .inr ⟨c, rfl, hj ▸ .createJob hkey'⟩
    · obtain ⟨c, hparty, rfl⟩ := hs.requeue_opened hnew hy hop
      exact .inr ⟨c, hparty, hop ▸ .requeueJob⟩

theorem Stepped.committed_session (hs : Stepped cfg s a s' es) {b : Answer}
    (hmem : .closed sid (.committed op b) ∈ es) :
    ∃ y, s.mysql.sessions sid = some y ∧ y.op = op := by
  obtain ⟨how, db, -, hclose, -⟩ := hs.closed_mem hmem
  obtain ⟨y, hy, ⟨_, _, hcl, _⟩ | ⟨_, _, hcl, _⟩ | ⟨hcl, _⟩⟩ := Server.close_cases hclose
  · exact ⟨y, hy, (Closed.committed.inj hcl).1.symm⟩
  · cases hcl
  · cases hcl

/-- The call that comes in. -/
def Action.call? : Action → Option ℕ
  | .createJob c .. | .requeueJob c _ => some c
  | _ => none

/-- The step in which a call comes in. -/
theorem Stepped.comes_in (hs : Stepped cfg s a s' es) (ha : a.call? = some c) :
    s.calls c = none ∧ commits c es = [] := by
  cases hs with
  | badKey hc => exact ⟨Option.some.inj ha ▸ hc, rfl⟩
  | createJob hc => exact ⟨Option.some.inj ha ▸ hc, rfl⟩
  | requeueJob hc => exact ⟨Option.some.inj ha ▸ hc, rfl⟩
  | _ => cases ha

end Calls

/-! ## A call that has failed -/

section Failed

variable {cfg : Config} {s s' t : State} {c : ℕ} {es es' : List Event} {sid : Sid} {a : Action}
  {y : Conn} {op : Op}

theorem commits_eq : commits c es = (closings es).filterMap fun
    | (sid, .committed op a) =>
      if sid.party = .call c ∧ (about op a).isSome then some op else none
    | _ => none := by
  rw [closings, List.filterMap_filterMap]
  refine congrArg (List.filterMap · es) (funext fun e => ?_)
  cases e with
  | closed sid k => cases k <;> rfl
  | _ => rfl

/-- A step commits nothing for a call, or what one session of it was opened for. -/
theorem Stepped.commits_cases (hs : Stepped cfg s a s' es) : commits c es = [] ∨
    ∃ sid how y b, a = .close sid how ∧ sid.party = .call c ∧ s.mysql.sessions sid = some y ∧
      (about y.op b).isSome ∧ commits c es = [y.op] := by
  rw [commits_eq]
  rcases hs.closings_cases with hnil | ⟨sid, how, db, k, ha, hclose, hone⟩
  · exact .inl (by rw [hnil, List.filterMap_nil])
  obtain ⟨y, hy, -⟩ := Server.close_cases hclose
  rw [hone]
  obtain rfl | ⟨b, ⟨-, rfl⟩ | ⟨-, rfl⟩⟩ := close_op hclose hy
  · exact .inl rfl
  · by_cases hcounts : sid.party = .call c ∧ (about y.op b).isSome
    · exact .inr ⟨sid, how, y, b, ha, hcounts.1, hy, hcounts.2,
        List.filterMap_cons_some (if_pos hcounts)⟩
    · exact .inl (List.filterMap_cons_none (if_neg hcounts))
  · exact .inl rfl

/-- Once a call has come in, no other session is opened for it than to read. -/
theorem Stepped.no_more (hs : Stepped cfg s a s' es) (hp : Paired none s) {x : Call}
    (hx : s.calls c = some x) (hy : s'.mysql.sessions sid = some y) (hparty : sid.party = .call c) :
    (∃ y', s.mysql.sessions sid = some y' ∧ y'.op = y.op) ∨ ∀ b, about y.op b = none := by
  cases hs.continues hp hy with
  | stays hy' hop => exact .inl ⟨_, hy', hop.symm⟩
  | runs _ hy' hop => exact .inl ⟨_, hy', hop.symm⟩
  | answered hy' hop => exact .inl ⟨_, hy', hop.symm⟩
  | opened _ _ _ hby =>
    have asked (hop : (∃ j, y.op = .createJob j) ∨ ∃ id, y.op = .requeueJob id) :
        (∃ y', s.mysql.sessions sid = some y' ∧ y'.op = y.op) ∨ ∀ b, about y.op b = none := by
      obtain hold | ⟨c', hparty', hask⟩ := hs.asks hp hy hop
      · exact .inl hold
      · obtain rfl := Party.call.inj (hparty.symm.trans hparty')
        have hcall : a.call? = some c := by
          generalize y.op = op at hask
          cases hask <;> rfl
        cases (hs.comes_in hcall).1.symm.trans hx
    rw [hparty] at hby
    generalize y.op = op at hby asked
    cases hby with
    | createJob => exact asked (.inl ⟨_, rfl⟩)
    | requeueJob => exact asked (.inr ⟨_, rfl⟩)
    | selectById => exact .inr fun _ => rfl
    | selectByRequestKey => exact .inr fun _ => rfl

/-- What has become of the transaction of a call that has failed. -/
inductive Aftermath (cfg : Config) (s : State) (c : ℕ) (es : List Event) (s' : State) (op : Op) :
    Prop
  /-- Nothing is committed, but one session may do so yet. -/
  | left (sid : Sid) (hc : commits c es = [])
      (hone : ∀ sid' y, s'.mysql.sessions sid' = some y → sid'.party = .call c →
        (sid' = sid ∧ y.op = op) ∨ ∀ b, about y.op b = none)
  | done (hc : commits c es = [op])
      (hwhy : (During cfg s c es s' [] fun t => t.calls c = some (.answered .internal)) ∨
        During cfg s c es s' [op] fun t => ∃ x ∈ t.calls c, x.reading = true)
      (hnone : ∀ sid' y, s'.mysql.sessions sid' = some y → sid'.party = .call c →
        ∀ b, about y.op b = none)

theorem Aftermath.truthful (h : Aftermath cfg s c es s' op) :
    Truthful cfg s c es s' op .internal := by
  cases h with
  | left _ hc => exact .internal (.inl hc)
  | done hc hwhy => exact .internal (.inr ⟨hc, hwhy⟩)

theorem Aftermath.step (h : Aftermath cfg s c es t op) (hs : t.step cfg a = some (s', es'))
    (hrun : Run cfg s es t) (hp : Paired none t) (hx : t.calls c = some (.answered .internal)) :
    Aftermath cfg s c (es ++ es') s' op := by
  have hstep := step_cases hs
  have hgo : Run cfg t es' s' := .step .refl hs
  cases h with
  | left sid hc hone =>
    obtain hno | ⟨sid', how, y, b, rfl, hparty, hy, habout, hcommits⟩ :=
      hstep.commits_cases (c := c)
    · refine .left sid (by rw [commits_append, hc, hno, List.append_nil]) fun sid' y hy hparty => ?_
      obtain ⟨y', hy', hop⟩ | hsilent := hstep.no_more hp hx hy hparty
      · exact hop ▸ hone sid' y' hy' hparty
      · exact .inr hsilent
    -- The commit has arrived, and no session is left that could commit.
    · obtain ⟨rfl, rfl⟩ | hsilent := hone sid' y hy hparty
      swap
      · simp [hsilent] at habout
      have hgave : During cfg s c es t [] fun t => t.calls c = some (.answered .internal) :=
        hc ▸ .now hrun hx
      refine .done (by rw [commits_append, hc, hcommits, List.nil_append])
        (.inl (hgave.later hgo)) fun sid' y' hy' hparty' => ?_
      obtain ⟨y₁, hy₁, hop⟩ | hsilent := hstep.no_more hp hx hy' hparty'
      · obtain ⟨rfl, -⟩ | hsilent := hone sid' y₁ hy₁ hparty'
        · cases (hstep.closed hp).symm.trans hy'
        · exact hop ▸ hsilent
      · exact hsilent
  | done hc hwhy hnone =>
    have hno : commits c es' = [] := by
      obtain hno | ⟨sid', how, y, b, -, hparty, hy, habout, -⟩ := hstep.commits_cases (c := c)
      · exact hno
      · simp [hnone sid' y hy hparty] at habout
    refine .done (by rw [commits_append, hc, hno, List.append_nil])
      (hwhy.imp (fun hgave => hgave.later hgo) fun hread => hread.later hgo)
      fun sid' y hy hparty => ?_
    obtain ⟨y', hy', hop⟩ | hsilent := hstep.no_more hp hx hy hparty
    · exact hop ▸ hnone sid' y' hy' hparty
    · exact hsilent

end Failed

/-! ## What becomes of a call -/

section Calls

variable {cfg : Config} {s s' t : State} {c : ℕ} {es es' : List Event} {sid : Sid} {a : Action}
  {x : Call} {op q : Op}

/-- What a step is to a call. -/
inductive CallTurn (cfg : Config) (s : State) (c : ℕ) (x : Call) (a : Action) (s' : State)
    (es : List Event) : Prop
  /-- It goes on waiting. -/
  | waits (hx : s'.calls c = some x) (hno : commits c es = [])
  | lost {sid : Sid} (ha : a = .giveUp sid) (hsid : x.session? = some sid)
      (hx : s'.calls c = some (.answered .internal))
  | told {sid : Sid} {how : Closing} {db : MySQL} {k : Closed Answer Op} {x' : Call} {fx : Effects}
      (ha : a = .close sid how) (hsid : x.session? = some sid) (hparty : sid.party = .call c)
      (hclose : s.mysql.close sid how = some (db, k))
      (hgo : Call.proceed s.opened c x (answerOf k) = (x', fx)) (hx : s'.calls c = some x')
      (hs : s'.mysql = (State.affect cfg { s with mysql := db } fx).mysql)
      (hes : es = .closed sid k :: fx.events)

theorem commits_of_worker {w : WorkerId} (h : ∀ e ∈ es, e.worker? = some w) :
    commits c es = [] :=
  commits_eq_nil fun sid k hmem => by cases h _ hmem

theorem commits_of_responded {c' : ℕ} (h : ∀ e ∈ es, ∃ r, e = .responded c' r) :
    commits c es = [] :=
  commits_eq_nil fun sid k hmem => by
    obtain ⟨r, hr⟩ := h _ hmem
    cases hr

theorem Stepped.attends (h : Stepped cfg s a s' es) (ht : s.Tended) (hx : s.calls c = some x)
    (hne : x ≠ .answered .internal) : CallTurn cfg s c x a s' es := by
  have other {c' : ℕ} {x' : Call} {t : State} (hc : s.calls c' = none)
      (hcalls : t.calls = s.calls) : (t.setCall c' x').calls c = some x := by
    have hne : c ≠ c' := by
      rintro rfl
      cases hc.symm.trans hx
    exact (Function.update_of_ne hne ..).trans (hcalls ▸ hx)
  cases h with
  | @close sid how db k _ _ hm hd =>
    -- The session of the call has ended, or another one.
    have hopen {y : Conn} (hy : s.mysql.sessions sid = some y) (hparty : sid.party = .call c) :
        x.session? = some sid := by
      obtain ⟨x', hx', hwhy⟩ := ht sid y c hy hparty
      obtain rfl := Option.some.inj (hx.symm.trans hx')
      exact hwhy.resolve_left hne
    obtain ⟨y, hy, -⟩ := Server.close_cases hm
    cases hd with
    | nobody _ _ hc =>
      refine .waits hx ((commits_other fun hparty => ?_).trans rfl)
      exact hc c x hparty hx (hopen hy hparty)
    | worker hparty _ hx' =>
      refine .waits hx ((commits_other fun hcall => ?_).trans
        (commits_of_worker (returned_cases hx').worker))
      rcases hparty with hw | hw <;> cases hw.symm.trans hcall
    | dispatcher hparty =>
      exact .waits hx ((commits_other fun hcall => by cases hparty.symm.trans hcall).trans rfl)
    | @call c' x₁ x' fx hparty hx₁ hsid hp =>
      rcases eq_or_ne c' c with rfl | hcc
      · obtain rfl := Option.some.inj (hx.symm.trans hx₁)
        exact .told rfl hsid hparty hm hp (Function.update_self _ _ _) rfl rfl
      · refine .waits ((Function.update_of_ne (Ne.symm hcc) ..).trans hx)
          ((commits_other fun hcall => ?_).trans (commits_of_responded (proceed_responds hp)))
        exact hcc (Party.call.inj (hparty.symm.trans hcall))
  | giveUp _ hd =>
    cases hd with
    | nobody => exact .waits hx rfl
    | worker _ _ hx' => exact .waits hx (commits_of_worker (returned_cases hx').worker)
    | dispatcher => exact .waits hx rfl
    | @call c' x₁ x' fx hparty hx₁ hsid hp =>
      rcases eq_or_ne c' c with rfl | hcc
      · obtain rfl : x' = .answered .internal := by cases x₁ <;> exact (Prod.mk.inj hp).1.symm
        obtain rfl := Option.some.inj (hx.symm.trans hx₁)
        exact .lost rfl hsid (Function.update_self _ _ _)
      · exact .waits ((Function.update_of_ne (Ne.symm hcc) ..).trans hx)
          (commits_of_responded (proceed_responds hp))
  | worker _ _ hx' => exact .waits hx (commits_of_worker (act_cases hx').worker)
  | badKey hc => exact .waits (other hc rfl) rfl
  | createJob hc => exact .waits (other hc rfl) rfl
  | requeueJob hc => exact .waits (other hc rfl) rfl
  | _ => exact .waits hx rfl

/-- The query has not run yet, or has read the tables in the run from `s`. -/
def Reads (cfg : Config) (s : State) (c : ℕ) (es : List Event) (s' : State) (sid : Sid)
    (q : Op) : Prop :=
  ∃ y, s'.mysql.sessions sid = some y ∧ y.op = q ∧
    (y.rest = (.read fun _ t => .commit (.row (q.reads t))) ∨
      ∃ o, y.rest = .commit (.row o) ∧ Once cfg s c es s' (commits c es) fun t => q.reads t = o)

/-- A query goes on in the steps of others. -/
theorem Reads.step (h : Reads cfg s c es t sid q) (hs : t.step cfg a = some (s', es'))
    (hrun : Run cfg s es t) (hp : Paired none t) (hx : t.calls c = some x)
    (hx' : s'.calls c = some x) (hw : x.Waits sid q) (hno : commits c es' = []) :
    Reads cfg s c (es ++ es') s' sid q := by
  obtain ⟨y, hy, hop, hrest⟩ := h
  have hstep := step_cases hs
  have hone : Run cfg t es' s' := .step .refl hs
  have hsame : commits c (es ++ es') = commits c es := by
    rw [commits_append, hno, List.append_nil]
  obtain hnone | ⟨y', hy', x', hx'', hw'⟩ :=
    (hp.step hstep).waited (.call c) sid q ⟨x, hx', hw⟩
  · cases hnone
  obtain rfl := Option.some.inj (hx'.symm.trans hx'')
  refine ⟨y', hy', (hw.unique hw').2, ?_⟩
  rw [hsame]
  cases hstep.continues hp hy' with
  | stays hy₁ _ _ hrest' =>
    obtain rfl := Option.some.inj (hy.symm.trans hy₁)
    rw [hrest']
    exact hrest.imp_right fun ⟨o, ho, honce⟩ => ⟨o, ho, honce.later hone⟩
  | runs ha hy₁ =>
    obtain rfl := Option.some.inj (hy.symm.trans hy₁)
    subst ha
    cases hstep with
    | exec hexec =>
      obtain hrest | ⟨o, hrest, -⟩ := hrest
      -- It reads the tables now.
      · obtain ⟨y₂, hy₂, -, hrest₂⟩ := exec_reads hexec hy hrest
        obtain rfl := Option.some.inj (hy'.symm.trans hy₂)
        have honce : Once cfg s c es t (commits c es) fun u => q.reads u = q.reads t.mysql.store :=
          .now hrun rfl
        exact .inr ⟨_, hrest₂, honce.later hone⟩
      · simp [Server.exec, hy, hrest] at hexec
  | answered hy₁ _ _ hcall =>
    obtain rfl := Option.some.inj (hy.symm.trans hy₁)
    obtain hrest | ⟨o, hrest, -⟩ := hrest <;> cases hrest.symm.trans hcall
  | opened hnum => exact absurd hnum (hp.party (.call c) sid q ⟨x, hx, hw⟩).2.ne

/-- A query that has ended has failed, or tells what it has read. -/
theorem Reads.closed (h : Reads cfg s c es t sid q) {how : Closing} {db : MySQL}
    {k : Closed Answer Op} (hclose : t.mysql.close sid how = some (db, k)) :
    k = .failed q ∨ ∃ o, k = .committed q (.row o) ∧
      Once cfg s c es t (commits c es) fun t => q.reads t = o := by
  obtain ⟨y, hy, rfl, hrest⟩ := h
  obtain rfl | ⟨b, ⟨hr, rfl⟩ | ⟨hr, rfl⟩⟩ := close_op hclose hy
  · exact .inl rfl
  · obtain hrest | ⟨o, hrest, honce⟩ := hrest
    · cases hr.symm.trans hrest
    obtain rfl := Script.commit.inj (hr.symm.trans hrest)
    exact .inr ⟨o, rfl, honce⟩
  · obtain hrest | ⟨o, hrest, -⟩ := hrest <;> cases hr.symm.trans hrest

/-- A query that the call opens has not run yet. -/
theorem Reads.opens {db : MySQL} {fx : Effects}
    (hm : s'.mysql = (State.affect cfg { t with mysql := db } fx).mysql)
    (ho : fx.opens = some (.call c, q))
    (hq : q.script cfg = .read fun _ t => .commit (.row (q.reads t))) :
    Reads cfg s c es s' ⟨.call c, t.opened⟩ q := by
  have hy := @affect_new cfg { t with mysql := db } fx _ _ ho
  rw [← hm] at hy
  exact ⟨_, hy, rfl, .inl hq⟩

/-- Where a call for the operation stands, in a run since it came in. -/
inductive Standing (cfg : Config) (s : State) (c : ℕ) (es : List Event) (s' : State) :
    Op → Call → Prop
  | creating {j sid} (hc : commits c es = []) :
      Standing cfg s c es s' (.createJob j) (.creating j sid)
  | fetching {j sid} (hc : commits c es = [.createJob j])
      (hr : Reads cfg s c es s' sid (.selectById j.id)) :
      Standing cfg s c es s' (.createJob j) (.fetching j sid)
  | resolving {j sid k h} (hj : j.request = some (k, h)) (hc : commits c es = [])
      (hr : Reads cfg s c es s' sid (.selectByRequestKey k)) :
      Standing cfg s c es s' (.createJob j) (.resolving j sid)
  | requeueing {id sid} (hc : commits c es = []) :
      Standing cfg s c es s' (.requeueJob id) (.requeueing id sid)
  | refetching {id sid} (hc : commits c es = [.requeueJob id])
      (hr : Reads cfg s c es s' sid (.selectById id)) :
      Standing cfg s c es s' (.requeueJob id) (.refetching id sid)
  | answered {op r} (hne : r ≠ .internal) (h : Truthful cfg s c es s' op r) :
      Standing cfg s c es s' op (.answered r)
  | failed {op : Op} (h : Aftermath cfg s c es s' op) :
      Standing cfg s c es s' op (.answered .internal)

theorem Standing.truthful (h : Standing cfg s c es s' op (.answered r)) :
    Truthful cfg s c es s' op r := by
  cases h with
  | answered _ h => exact h
  | failed h => exact h.truthful

/-- A call that goes on waiting stands where it stood. -/
theorem Standing.waits (h : Standing cfg s c es t op x) (hs : t.step cfg a = some (s', es'))
    (hrun : Run cfg s es t) (hp : Paired none t) (hx : t.calls c = some x)
    (hx' : s'.calls c = some x) (hno : commits c es' = []) :
    Standing cfg s c (es ++ es') s' op x := by
  have hsame : commits c (es ++ es') = commits c es := by
    rw [commits_append, hno, List.append_nil]
  cases h with
  | creating hc => exact .creating (hsame.trans hc)
  | fetching hc hr => exact .fetching (hsame.trans hc) (hr.step hs hrun hp hx hx' .fetching hno)
  | resolving hj hc hr =>
    exact .resolving hj (hsame.trans hc) (hr.step hs hrun hp hx hx' (.resolving hj) hno)
  | requeueing hc => exact .requeueing (hsame.trans hc)
  | refetching hc hr =>
    exact .refetching (hsame.trans hc) (hr.step hs hrun hp hx hx' .refetching hno)
  | answered hne h => exact .answered hne (h.later (.step .refl hs) hno)
  | failed h => exact .failed (h.step hs hrun hp hx)

/-- A call that gives its session up has failed, whether the session commits or not. -/
theorem Standing.lost (h : Standing cfg s c es t op x) (hs : t.step cfg a = some (s', es'))
    (hrun : Run cfg s es t) (hp : Paired none t) (hx : t.calls c = some x) (ha : a = .giveUp sid)
    (hsid : x.session? = some sid)
    (waited : ∀ {sid' : Sid} {y : Conn}, t.mysql.sessions sid' = some y →
      sid'.party = .call c → x.session? = some sid')
    (opened : ∀ {sid : Sid} {op : Op}, x.Waits sid op →
      ∃ y, t.mysql.sessions sid = some y ∧ y.op = op) :
    Aftermath cfg s c (es ++ es') s' op := by
  have hstep := step_cases hs
  have hno : commits c es' = [] := by
    obtain hno | ⟨sid', how, y, b, hclose, -⟩ := hstep.commits_cases (c := c)
    · exact hno
    · cases ha.symm.trans hclose
  have hsame : commits c (es ++ es') = commits c es := by
    rw [commits_append, hno, List.append_nil]
  -- Its session may still commit, if it was opened to do so.
  have left {sid' : Sid} {q : Op} (hc : commits c es = []) (hw : x.Waits sid' q)
      (hq : q = op ∨ ∀ b, about q b = none) : Aftermath cfg s c (es ++ es') s' op := by
    refine .left sid' (hsame.trans hc) fun sid₁ y hy hparty => ?_
    obtain ⟨y₁, hy₁, hop⟩ | hsilent := hstep.no_more hp hx hy hparty
    · obtain rfl := Option.some.inj (hw.session.symm.trans (waited hy₁ hparty))
      obtain ⟨y₂, hy₂, rfl⟩ := opened hw
      obtain rfl := Option.some.inj (hy₁.symm.trans hy₂)
      exact hop ▸ hq.imp_left fun hq => ⟨rfl, hq⟩
    · exact .inr hsilent
  -- The transaction has committed, and the read after it was given up.
  have done {sid' : Sid} {id : JobId} (hc : commits c es = [op])
      (hw : x.Waits sid' (.selectById id)) (hreading : x.reading = true) :
      Aftermath cfg s c (es ++ es') s' op := by
    have hread : During cfg s c es t [op] fun t => ∃ x ∈ t.calls c, x.reading = true :=
      hc ▸ .now hrun ⟨x, hx, hreading⟩
    refine .done (hsame.trans hc) (.inr (hread.later (.step .refl hs))) fun sid₁ y hy hparty => ?_
    obtain ⟨y₁, hy₁, hop⟩ | hsilent := hstep.no_more hp hx hy hparty
    · obtain rfl := Option.some.inj (hw.session.symm.trans (waited hy₁ hparty))
      obtain ⟨y₂, hy₂, hop₂⟩ := opened hw
      obtain rfl := Option.some.inj (hy₁.symm.trans hy₂)
      rw [← hop, hop₂]
      exact fun _ => rfl
    · exact hsilent
  cases h with
  | creating hc => exact left hc .creating (.inl rfl)
  | fetching hc => exact done hc .fetching rfl
  | resolving hj hc => exact left hc (.resolving hj) (.inr fun _ => rfl)
  | requeueing hc => exact left hc .requeueing (.inl rfl)
  | refetching hc => exact done hc .refetching rfl
  | answered => cases hsid
  | failed => cases hsid

section Told

variable {how : Closing} {db : MySQL} {k : Closed Answer Op} {x' : Call} {fx : Effects}

/-- The transaction of a call has ended. -/
theorem Standing.committed (hrun : Run cfg s es t) (hk : Kept cfg t.mysql) {y : Conn}
    (hy : t.mysql.sessions sid = some y) (hparty : sid.party = .call c)
    (hclose : t.mysql.close sid how = some (db, k))
    (hgo : Call.proceed t.opened c x (answerOf k) = (x', fx))
    (hone : Run cfg t (.closed sid k :: fx.events) s')
    (hm : s'.mysql = (State.affect cfg { t with mysql := db } fx).mysql)
    (hc : commits c es = [])
    (hsilent : ∀ sid' y, s'.mysql.sessions sid' = some y → sid'.party = .call c →
      ∀ b, about y.op b = none)
    (hx : (∃ j, y.op = .createJob j ∧ x = .creating j sid) ∨
      ∃ id, y.op = .requeueJob id ∧ x = .requeueing id sid) :
    Standing cfg s c (es ++ .closed sid k :: fx.events) s' y.op x' := by
  have hquiet : ∀ sid k, .closed sid k ∉ fx.events := fun sid k hmem => by
    obtain ⟨r, hr⟩ := proceed_responds hgo _ hmem
    cases hr
  have failed {op : Op} (hc : commits c (es ++ .closed sid k :: fx.events) = []) :
      Standing cfg s c (es ++ .closed sid k :: fx.events) s' op (.answered .internal) :=
    .failed (.left sid hc fun sid' y hy hparty => .inr (hsilent sid' y hy hparty))
  obtain rfl | ⟨b, ⟨-, rfl⟩ | ⟨-, rfl⟩⟩ := close_op hclose hy
  · have hnone : commits c (.closed sid (.failed y.op) :: fx.events) = [] :=
      (List.filterMap_cons_none rfl).trans (commits_eq_nil hquiet)
    have hall : commits c (es ++ .closed sid (.failed y.op) :: fx.events) = [] := by
      rw [commits_append, hc, hnone, List.nil_append]
    obtain ⟨j, -, rfl⟩ | ⟨id, -, rfl⟩ := hx <;>
      · cases proceed_cases hgo
        exact failed hall
  -- It has committed, and reads its job back.
  · have hone {id : JobId} (habout : about y.op b = some id) :
        commits c (es ++ .closed sid (.committed y.op b) :: fx.events) = [y.op] := by
      rw [commits_append, hc, commits_committed hparty habout hquiet, List.nil_append]
    obtain ⟨j, hop, rfl⟩ | ⟨id, hop, rfl⟩ := hx
    · rw [hop] at hclose hgo hone ⊢
      obtain ⟨rfl, -⟩ := hk.mutated hclose (.inl ⟨j, rfl, rfl⟩)
      obtain ⟨rfl, rfl⟩ := Prod.mk.inj hgo
      exact .fetching (hone rfl) (.opens hm rfl rfl)
    · rw [hop] at hclose hgo hone ⊢
      obtain ⟨rfl, -⟩ := hk.mutated hclose (.inr rfl)
      obtain ⟨rfl, rfl⟩ := Prod.mk.inj hgo
      exact .refetching (hone rfl) (.opens hm rfl rfl)
  -- It was rolled back for a reason that the tables gave.
  · have hnone : commits c (.closed sid (.aborted y.op b) :: fx.events) = [] :=
      (List.filterMap_cons_none rfl).trans (commits_eq_nil hquiet)
    have hall : commits c (es ++ .closed sid (.aborted y.op b) :: fx.events) = [] := by
      rw [commits_append, hc, hnone, List.nil_append]
    have honce {P : Tables → Prop} (hP : P t.mysql.store) :
        Once cfg s c (es ++ .closed sid (.aborted y.op b) :: fx.events) s' [] P := by
      have hnow : Once cfg s c es t (commits c es) P := .now hrun hP
      exact (hc ▸ hnow).later hone
    obtain ⟨-, _, hi, -, -, hwhy, -⟩ := hk.abort hclose
    obtain ⟨j, hop, rfl⟩ | ⟨id, hop, rfl⟩ := hx
    · rw [hop] at hwhy hall failed ⊢
      cases proceed_cases hgo with
      | fetch => cases hwhy
      | resolve hj => exact .resolving hj hall (.opens hm rfl rfl)
      | internal => exact failed hall
    · rw [hop] at hwhy hall honce failed ⊢
      cases proceed_cases hgo with
      | refetch => cases hwhy
      | notFound =>
        cases hwhy with
        | notFound hno => exact .answered (by simp) (.notFound hall (honce hno))
      | notRequeueable =>
        cases hwhy with
        | notRequeueable hr hdead hfailed =>
          exact .answered (by simp) (.notRequeueable hall hdead hfailed (honce hr))
      | internal => exact failed hall

/-- The query of a call has ended. -/
theorem Standing.read (hr : Reads cfg s c es t sid q)
    (hclose : t.mysql.close sid how = some (db, k))
    (hgo : Call.proceed t.opened c x (answerOf k) = (x', fx))
    (hone : Run cfg t (.closed sid k :: fx.events) s') (hq : ∀ a, about q a = none)
    (hrun : Run cfg s es t) (hcall : t.calls c = some x)
    (hsilent : ∀ sid' y, s'.mysql.sessions sid' = some y → sid'.party = .call c →
      ∀ b, about y.op b = none)
    (hx : (∃ j, q = .selectById j.id ∧ op = .createJob j ∧ x = .fetching j sid ∧
        commits c es = [op]) ∨
      (∃ j h hash, q = .selectByRequestKey h ∧ op = .createJob j ∧ x = .resolving j sid ∧
        j.request = some (h, hash) ∧ commits c es = []) ∨
      ∃ id, q = .selectById id ∧ op = .requeueJob id ∧ x = .refetching id sid ∧
        commits c es = [op]) :
    Standing cfg s c (es ++ .closed sid k :: fx.events) s' op x' := by
  have hquiet : ∀ sid k, .closed sid k ∉ fx.events := fun sid k hmem => by
    obtain ⟨r, hr⟩ := proceed_responds hgo _ hmem
    cases hr
  -- A read that fails after the commit, or before anything was committed.
  have late (hall : commits c (es ++ .closed sid k :: fx.events) = [op])
      (hc : commits c es = [op]) (hreading : x.reading = true) :
      Standing cfg s c (es ++ .closed sid k :: fx.events) s' op (.answered .internal) := by
    have hread : During cfg s c es t [op] fun t => ∃ x ∈ t.calls c, x.reading = true :=
      hc ▸ .now hrun ⟨x, hcall, hreading⟩
    exact .failed (.done hall (.inr (hread.later hone)) hsilent)
  have early (hall : commits c (es ++ .closed sid k :: fx.events) = []) :
      Standing cfg s c (es ++ .closed sid k :: fx.events) s' op (.answered .internal) :=
    .failed (.left sid hall fun sid' y hy hparty => .inr (hsilent sid' y hy hparty))
  obtain rfl | ⟨o, rfl, honce⟩ := hr.closed hclose
  · have hnone : commits c (.closed sid (.failed q) :: fx.events) = [] :=
      (List.filterMap_cons_none rfl).trans (commits_eq_nil hquiet)
    have hall : commits c (es ++ .closed sid (.failed q) :: fx.events) = commits c es := by
      rw [commits_append, hnone, List.append_nil]
    obtain ⟨j, -, -, rfl, hc⟩ | ⟨j, h, hash, -, -, rfl, -, hc⟩ | ⟨id, -, -, rfl, hc⟩ := hx
    · cases proceed_cases hgo
      exact late (hall.trans hc) hc rfl
    · cases proceed_cases hgo
      exact early (hall.trans hc)
    · cases proceed_cases hgo
      exact late (hall.trans hc) hc rfl
  have hnone : commits c (.closed sid (.committed q (.row o)) :: fx.events) = [] :=
    (List.filterMap_cons_none (by simp [hq])).trans (commits_eq_nil hquiet)
  have hall : commits c (es ++ .closed sid (.committed q (.row o)) :: fx.events) =
      commits c es := by
    rw [commits_append, hnone, List.append_nil]
  have hread := honce.later hone
  obtain ⟨j, rfl, rfl, rfl, hc⟩ | ⟨j, h, hash, rfl, rfl, rfl, hj, hc⟩ |
    ⟨id, rfl, rfl, rfl, hc⟩ := hx
  · rw [hc] at hall hread
    cases proceed_cases hgo with
    | accepted => exact .answered (by simp) (.created hall hread)
    | internal => exact late hall hc rfl
  · rw [hc] at hall hread
    have hkey {r : JobRow} (ho : o = some r) : r.requestKey = some h := by
      obtain ⟨t, hfind⟩ := hread.holds
      simpa using List.find?_some (hfind.trans ho)
    cases proceed_cases hgo with
    | resolved hhash =>
      have hr := hread.mono fun t => reads_row
      exact .answered (by simp) (.replayed hj hall (hkey rfl) (by simpa [hj] using hhash) hr)
    | conflict hhash =>
      have hr := hread.mono fun t => reads_row
      exact .answered (by simp) (.conflict hj hall (hkey rfl) (by simpa [hj] using hhash) hr)
    | internal => exact early hall
  · rw [hc] at hall hread
    cases proceed_cases hgo with
    | requeued => exact .answered (by simp) (.requeued hall hread)
    | internal => exact late hall hc rfl

end Told

/-- Whatever happens, the call stands somewhere. -/
theorem Standing.step (h : Standing cfg s c es t op x) (hs : t.step cfg a = some (s', es'))
    (hrun : Run cfg s es t) (hk : Kept cfg t.mysql) (hp : Paired none t) (ht : t.Tended)
    (hx : t.calls c = some x) :
    ∃ x', s'.calls c = some x' ∧ Standing cfg s c (es ++ es') s' op x' := by
  have hstep := step_cases hs
  by_cases hne : x = .answered .internal
  · subst hne
    have hx' : s'.calls c = some (.answered .internal) := by
      refine (hstep.proceeds hx).resolve_right ?_
      rintro ⟨_, _, _, _, -, hsid, -⟩
      cases hsid
    cases h with
    | answered hne => exact absurd rfl hne
    | failed h => exact ⟨_, hx', .failed (h.step hs hrun hp hx)⟩
  -- The only session of the call so far is the one it waits for.
  have waited {sid' : Sid} {y : Conn} (hy : t.mysql.sessions sid' = some y)
      (hparty : sid'.party = .call c) : x.session? = some sid' := by
    obtain ⟨x₁, hx₁, hwhy⟩ := ht sid' y c hy hparty
    obtain rfl := Option.some.inj (hx.symm.trans hx₁)
    exact hwhy.resolve_left hne
  have opened {sid : Sid} {op : Op} (hw : x.Waits sid op) :
      ∃ y, t.mysql.sessions sid = some y ∧ y.op = op := by
    obtain hnone | ⟨y, hy, x₁, hx₁, hw₁⟩ := hp.waited (.call c) sid op ⟨x, hx, hw⟩
    · cases hnone
    obtain rfl := Option.some.inj (hx.symm.trans hx₁)
    exact ⟨y, hy, (hw.unique hw₁).2⟩
  cases hstep.attends ht hx hne with
  | waits hx' hno => exact ⟨x, hx', h.waits hs hrun hp hx hx' hno⟩
  | lost ha hsid hx' => exact ⟨_, hx', .failed (h.lost hs hrun hp hx ha hsid waited opened)⟩
  | @told sid how db k x' fx ha hsid hparty hclose hgo hx' hm hes =>
    subst hes
    refine ⟨x', hx', ?_⟩
    have hsilent (sid' : Sid) (y : Conn) (hy : s'.mysql.sessions sid' = some y)
        (hparty' : sid'.party = .call c) : ∀ b, about y.op b = none := by
      refine (hstep.no_more hp hx hy hparty').resolve_left ?_
      rintro ⟨y', hy', -⟩
      obtain rfl := Option.some.inj (hsid.symm.trans (waited hy' hparty'))
      cases ((ha ▸ hstep).closed hp).symm.trans hy
    have hone : Run cfg t (.closed sid k :: fx.events) s' := .step .refl hs
    cases h with
    | creating hc =>
      obtain rfl := Option.some.inj hsid
      obtain ⟨y, hy, hop⟩ := opened .creating
      exact hop ▸ .committed hrun hk hy hparty hclose hgo hone hm hc hsilent
        (.inl ⟨_, hop, rfl⟩)
    | fetching hc hr =>
      obtain rfl := Option.some.inj hsid
      exact .read hr hclose hgo hone (fun _ => rfl) hrun hx hsilent
        (.inl ⟨_, rfl, rfl, rfl, hc⟩)
    | resolving hj hc hr =>
      obtain rfl := Option.some.inj hsid
      exact .read hr hclose hgo hone (fun _ => rfl) hrun hx hsilent
        (.inr (.inl ⟨_, _, _, rfl, rfl, rfl, hj, hc⟩))
    | requeueing hc =>
      obtain rfl := Option.some.inj hsid
      obtain ⟨y, hy, hop⟩ := opened .requeueing
      exact hop ▸ .committed hrun hk hy hparty hclose hgo hone hm hc hsilent
        (.inr ⟨_, hop, rfl⟩)
    | refetching hc hr =>
      obtain rfl := Option.some.inj hsid
      exact .read hr hclose hgo hone (fun _ => rfl) hrun hx hsilent
        (.inr (.inr ⟨_, rfl, rfl, rfl, hc⟩))
    | answered => cases hsid
    | failed => cases hsid

/-- A call that came in stands somewhere from then on. -/
theorem Asked.standing {s₀ : State} {es₀ : List Event} (h₀ : Initial s₀) (hpre : Run cfg s₀ es₀ t)
    (hask : Asked cfg c a op) (hs : t.step cfg a = some (s, es')) (hrun : Run cfg s es s') :
    ∃ x, s'.calls c = some x ∧ Standing cfg s c es s' op x := by
  induction hrun with
  | refl =>
    have hstep := step_cases hs
    cases hask with
    | createJob hkey =>
      cases hstep with
      | badKey _ hbad => cases hbad.symm.trans hkey
      | createJob _ hkey' =>
        obtain rfl := Option.some.inj (hkey.symm.trans hkey')
        exact ⟨_, Function.update_self .., .creating rfl⟩
    | requeueJob =>
      cases hstep with
      | requeueJob => exact ⟨_, Function.update_self .., .requeueing rfl⟩
  | step hrun' hs' ih =>
    obtain ⟨x, hx, hstand⟩ := ih
    have hwhole := (hpre.step hs).trans hrun'
    exact hstand.step hs' hrun' (hwhole.kept h₀) (hwhole.paired h₀) (hwhole.tended h₀) hx

end Calls

/-- Whatever happens while a call of `createJob` or `requeueJob` runs, what it answers was
    true at a moment in between, and the transaction that it tells of is all that it has
    committed. -/
theorem answers_truthful {cfg : Config} {s₀ s t s' : State} {es₀ es es' : List Event} {c : ℕ}
    {a : Action} {op : Op} {r : Response} (h₀ : Initial s₀) (hpre : Run cfg s₀ es₀ s)
    (hask : Asked cfg c a op) (hs : s.step cfg a = some (t, es)) (hrun : Run cfg t es' s')
    (hr : s'.calls c = some (.answered r)) : Truthful cfg t c es' s' op r := by
  obtain ⟨x, hx, hstand⟩ := hask.standing h₀ hpre hs hrun
  obtain rfl := Option.some.inj (hr.symm.trans hx)
  exact hstand.truthful

/-- The state once the first request has come in. -/
def firstAsked : State :=
  (State.after [.createJob 0 [] none firstInput firstJob]).1

/-- Its job is created, and read back. -/
def firstAnswered : State × List Event :=
  firstAsked.play (.defaults id)
    (List.replicate 3 (.exec ⟨.call 0, 0⟩ 0) ++ [.close ⟨.call 0, 0⟩ .commit,
      .exec ⟨.call 0, 1⟩ 0, .close ⟨.call 0, 1⟩ .commit])

theorem answers_truthful_first : ∃ r, r.id = firstJob ∧
    Truthful (.defaults id) firstAsked 0 firstAnswered.2 firstAnswered.1
      (.createJob (newJob (.defaults id) firstInput firstJob none)) (.accepted r) := by
  obtain ⟨r, hr, hid⟩ : ∃ r, firstAnswered.1.calls 0 = some (.answered (.accepted r)) ∧
      r.id = firstJob := ⟨_, rfl, rfl⟩
  refine ⟨r, hid, ?_⟩
  have hrun : Run (.defaults id) firstAsked firstAnswered.2 firstAnswered.1 := Run.play _ _ _
  have hask : Asked (.defaults id) 0 (.createJob 0 [] none firstInput firstJob)
      (.createJob (newJob (.defaults id) firstInput firstJob none)) := .createJob rfl
  have hstep : State.fresh.step (.defaults id) (.createJob 0 [] none firstInput firstJob) =
      some (firstAsked, [.called 0 (newJob (.defaults id) firstInput firstJob none)]) := rfl
  exact answers_truthful .fresh .refl hask hstep hrun hr

/-! ## One transaction after the other -/

/-- One of the actions executes the statement of the session that is handed `e`, and it looks
    at these tables and finds these locks free. -/
def State.Saw (cfg : Config) (s₀ : State) (acts : List Action) (sid : Sid) (e : Env) (t : Tables)
    (free : Key → Bool) : Prop :=
  ∃ n, acts[n]? = some (.exec sid e.now) ∧
    let db := (s₀.play cfg (acts.take n)).1.mysql
    db.serial = e.serial ∧ db.store = t ∧ db.free sid = free

section Serial

variable {cfg : Config} {s₀ s s' : State} {es : List Event} {a : Action}

theorem affect_serial (cfg : Config) (s : State) (fx : Effects) :
    (s.affect cfg fx).mysql.serial = s.mysql.serial := by
  have hleave (sid : Option Sid) : (s.leave sid).serial = s.mysql.serial := by
    cases sid <;> rfl
  rw [State.affect]
  split
  · exact hleave _
  · exact hleave _

/-- Only a statement is handed a number. -/
theorem Stepped.quiet (h : Stepped cfg s a s' es) (ha : ∀ sid now, a ≠ .exec sid now) :
    s'.mysql.serial = s.mysql.serial := by
  have delivered {t : State} {sid : Sid} {b : Option Answer} {es : List Event}
      (hd : Delivered cfg t sid b s' es) : s'.mysql.serial = t.mysql.serial := by
    cases hd with
    | nobody => rfl
    | worker => exact affect_serial ..
    | dispatcher => rfl
    | call => exact affect_serial ..
  cases h with
  | exec => exact absurd rfl (ha _ _)
  | close hm hd =>
    obtain ⟨t, rfl⟩ := Server.close_drop hm
    have hserial := delivered hd
    exact hserial
  | giveUp _ hd =>
    refine (delivered hd).trans ?_
    unfold State.forsake
    split <;> rfl
  | publish _ hm =>
    obtain ⟨x, _, next, -, -, rfl⟩ := Server.answer_cases hm
    rfl
  | publishLost _ hm =>
    obtain ⟨x, _, next, -, -, rfl⟩ := Server.answer_cases hm
    rfl
  | worker => exact affect_serial ..
  | @dispatch d => exact affect_serial cfg s { opens := some (.dispatcher d, .dispatch) }
  | @crashDispatcher d x => exact affect_serial cfg s { leaves := x.session }
  | @createJob c _ _ key input id =>
    exact affect_serial cfg s { opens := some (.call c, .createJob (newJob cfg input id key)) }
  | @requeueJob c id => exact affect_serial cfg s { opens := some (.call c, .requeueJob id) }
  | _ => rfl

theorem State.play_append (s : State) (acts acts' : List Action) :
    s.play cfg (acts ++ acts') = (((s.play cfg acts).1.play cfg acts').1,
      (s.play cfg acts).2 ++ ((s.play cfg acts).1.play cfg acts').2) := by
  induction acts generalizing s with
  | nil => rfl
  | cons a acts ih =>
    rw [List.cons_append, State.play, State.play]
    cases s.step cfg a with
    | none => exact ih s
    | some x =>
      simp only [ih x.1]
      rw [List.append_assoc]

/-- So far, what happened is serial, whatever actions follow. -/
theorem State.play_serialized (h₀ : Initial s₀) (acts rest : List Action) :
    Server.Serialized (·.script cfg) Logged (s₀.Saw cfg (acts ++ rest)) s₀.mysql
      (closings (s₀.play cfg acts).2) (s₀.play cfg acts).1.mysql := by
  induction acts using List.reverseRecOn generalizing rest with
  | nil =>
    refine .idle (fun k => ?_) fun i => ?_
    · show s₀.mysql.locks k = none
      rw [h₀.locks]
    · show s₀.mysql.sessions i = none
      rw [h₀.sessions]
  | append_singleton acts a ih =>
    have hser := ih (a :: rest)
    rw [List.append_cons] at hser
    have hrun := Run.play cfg s₀ acts
    have hk : Kept cfg (s₀.play cfg acts).1.mysql := hrun.kept h₀
    have hlast : (acts ++ [a] ++ rest)[acts.length]? = some a := by simp
    have htake : (acts ++ [a] ++ rest).take acts.length = acts := by simp
    rw [State.play_append]
    generalize hs : s₀.play cfg acts = x at hser hk
    obtain ⟨s, es⟩ := x
    simp only [State.play]
    cases hstep : s.step cfg a with
    | none => simpa using hser
    | some y =>
      obtain ⟨s', es'⟩ := y
      simp only [List.append_nil, closings_append]
      have hst := step_cases hstep
      by_cases ha : ∃ sid now, a = .exec sid now
      · obtain ⟨sid, now, rfl⟩ := ha
        cases hst with
        | exec hexec =>
          rw [closings_nil, List.append_nil]
          refine hser.exec hexec ⟨acts.length, hlast, ?_⟩ (hk.logged_at now)
          rw [htake, hs]
          exact ⟨rfl, rfl, rfl⟩
      · refine hser.quiet (Op.script_obeys cfg) (fun _ _ _ _ => Logged.congr) hst.steps
          (fun _ _ hm => (hk.life hm).1.logged_at) ?_
        exact (hst.quiet fun sid now h => ha ⟨sid, now, h⟩).le

end Serial

/-- What has become of the transactions of a run is what becomes of them one after the
    other, in the order in which they ended: each runs by itself against the tables that
    those before it left, and its statements read the clock in their order and not after it
    has ended. A statement that looks without a lock sees the tables as they were when it
    was executed. -/
theorem runs_serialize {cfg : Config} {s₀ : State} (h₀ : Initial s₀) (acts : List Action) :
    Server.Serial (·.script cfg) Logged (s₀.Saw cfg acts) s₀.mysql.store
      (s₀.play cfg acts).1.mysql.clock (s₀.play cfg acts).1.mysql.store
      (closings (s₀.play cfg acts).2) := by
  have h : Server.Serialized (·.script cfg) Logged (s₀.Saw cfg (acts ++ [])) s₀.mysql
      (closings (s₀.play cfg acts).2) (s₀.play cfg acts).1.mysql :=
    State.play_serialized h₀ acts []
  rw [List.append_nil] at h
  exact h.serial

/-- The first job is created, published and claimed. -/
theorem runs_serialize_first :
    (closings (State.after firstClaim).2).map Prod.fst =
      [⟨.call 0, 0⟩, ⟨.dispatcher 0, 2⟩, ⟨.worker "w", 3⟩] ∧
    Server.Serial (·.script (.defaults id)) Logged (State.fresh.Saw (.defaults id) firstClaim)
      .empty 0 (State.after firstClaim).1.mysql.store (closings (State.after firstClaim).2) :=
  ⟨by decide, runs_serialize .fresh firstClaim⟩

end ScaleQueue
