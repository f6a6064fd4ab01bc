import ScaleQueue.Life

/-!
# Sessions and those who wait for them

A worker, a dispatcher or a call of the API waits for one session at a time (a
worker also for that of its heartbeat). `Paired` says that the session somebody
waits for is open, and for what; and that every transaction whose client has not
left is waited for. So a statement of a `Claim` or a `Finish` only runs while
the worker is in the phase that waits for it.
-/

namespace ScaleQueue

open Locking

/-- A session, with the transaction that runs in it. -/
abbrev Conn := Session Tables Key Write OutboxRow Answer Op

/-- Who a session answers to. -/
inductive Client
  | worker (w : WorkerId)
  | dispatcher (d : ℕ)
  | call (c : ℕ)

/-- A worker and its heartbeat are one. -/
def Party.client : Party → Client
  | .worker w => .worker w
  | .beat w => .worker w
  | .dispatcher d => .dispatcher d
  | .call c => .call c

/-- The worker waits for the session, which it opened for the operation. -/
inductive Phase.Waits (w : WorkerId) : Phase → Sid → Op → Prop
  | claim {h sid} : Phase.Waits w (.claiming h sid) sid (.claim h.jobId h.generation w)
  | finish {h j sid e message delay} :
      Phase.Waits w (.finishing h j sid) sid (.finish j e message delay)
  | renew {h j r sid} : Phase.Waits w (.running h j r (.renewing sid)) sid (.renew j)

/-- The call waits for the session, which it opened for the operation. -/
inductive Call.Waits : Call → Sid → Op → Prop
  | creating {j sid} : Call.Waits (.creating j sid) sid (.createJob j)
  | fetching {j sid} : Call.Waits (.fetching j sid) sid (.selectById j.id)
  | resolving {j sid h hash} (hj : j.request = some (h, hash)) :
      Call.Waits (.resolving j sid) sid (.selectByRequestKey h)
  | requeueing {id sid} : Call.Waits (.requeueing id sid) sid (.requeueJob id)
  | refetching {id sid} : Call.Waits (.refetching id sid) sid (.selectById id)

/-- The client waits for the session, which it opened for the operation. -/
def State.Waits (s : State) (sid : Sid) (op : Op) : Client → Prop
  | .worker w => ∃ x, s.workers w = some x ∧ x.phase.Waits w sid op
  | .dispatcher d => op = .dispatch ∧ ∃ x, s.dispatchers d = some x ∧ x.session = some sid
  | .call c => ∃ x, s.calls c = some x ∧ x.Waits sid op

/-- Sessions and those who wait for them belong together. The session `gone` has
    just ended or was given up, and its client does not know yet. -/
structure Paired (gone : Option Sid) (s : State) : Prop where
  number : ∀ sid y, s.mysql.sessions sid = some y → sid.number < s.opened
  attended : ∀ sid y, s.mysql.sessions sid = some y → y.attended = true →
    y.op.autocommit = false → s.Waits sid y.op sid.party.client ∧ gone ≠ some sid
  party : ∀ c sid op, s.Waits sid op c → sid.party.client = c ∧ sid.number < s.opened
  waited : ∀ c sid op, s.Waits sid op c → gone = some sid ∨
    ∃ y, s.mysql.sessions sid = some y ∧ s.Waits sid y.op c

section

variable {cfg : Config} {s t : State} {sid : Sid}

/-- The sessions that were open before an effect stay open. -/
theorem affect_session (fx : Effects) {y : Conn} (hy : s.mysql.sessions sid = some y)
    (hnum : sid.number < s.opened) :
    (s.affect cfg fx).mysql.sessions sid =
      some { y with attended := if fx.leaves = some sid then false else y.attended } := by
  have hne (p : Party) : sid ≠ ⟨p, s.opened⟩ := by rintro rfl; exact absurd hnum (lt_irrefl _)
  have hleave : (s.leave fx.leaves).sessions sid =
      some { y with attended := if fx.leaves = some sid then false else y.attended } := by
    cases hl : fx.leaves with
    | none => simpa [State.leave] using hy
    | some sid' =>
      by_cases h : sid' = sid
      · subst h
        simp [State.leave, Server.leave, hy]
      · simp [State.leave, Server.leave, hy, Function.update_of_ne (Ne.symm h), h]
  cases ho : fx.opens with
  | none => simpa [State.affect, ho] using hleave
  | some o =>
    simp only [State.affect, ho, Server.begin, Function.update_of_ne (hne _)]
    exact hleave

/-- An effect opens the session it says, and no other. -/
theorem affect_opens (fx : Effects) {y : Conn}
    (hy : (s.affect cfg fx).mysql.sessions sid = some y) :
    (∃ y', s.mysql.sessions sid = some y') ∨ ∃ p op, fx.opens = some (p, op) ∧
      sid = ⟨p, s.opened⟩ ∧ y = ⟨op, s.mysql.clock, s.mysql.clock, true, op.script cfg, []⟩ := by
  have hleave {y : Conn} (h : (s.leave fx.leaves).sessions sid = some y) :
      ∃ y', s.mysql.sessions sid = some y' := by
    cases hl : fx.leaves with
    | none => exact ⟨y, by simpa [State.leave, hl] using h⟩
    | some sid' =>
      by_cases hs : sid = sid'
      · subst hs
        obtain ⟨y', hy', -⟩ : ∃ y', s.mysql.sessions sid = some y' ∧ _ := by
          simpa [State.leave, hl, Server.leave] using h
        exact ⟨y', hy'⟩
      · exact ⟨y, by simpa [State.leave, hl, Server.leave, Function.update_of_ne hs] using h⟩
  cases ho : fx.opens with
  | none => exact .inl (hleave (by simpa [State.affect, ho] using hy))
  | some o =>
    by_cases hs : sid = ⟨o.1, s.opened⟩
    · refine .inr ⟨o.1, o.2, rfl, hs, ?_⟩
      have hclock : (s.leave fx.leaves).clock = s.mysql.clock := by
        cases fx.leaves <;> rfl
      subst hs
      simp only [State.affect, ho, Server.begin, Function.update_self, hclock] at hy
      exact (Option.some.inj hy).symm
    · refine .inl (hleave (y := y) ?_)
      simpa [State.affect, ho, Server.begin, Function.update_of_ne hs] using hy

/-- A new session is one that nobody has waited for. -/
theorem affect_new (fx : Effects) {p : Party} {op : Op} (ho : fx.opens = some (p, op)) :
    (s.affect cfg fx).mysql.sessions ⟨p, s.opened⟩ =
      some ⟨op, s.mysql.clock, s.mysql.clock, true, op.script cfg, []⟩ := by
  have hclock : (s.leave fx.leaves).clock = s.mysql.clock := by
    cases fx.leaves <;> rfl
  simp [State.affect, ho, Server.begin, hclock]

/-- A client that takes a step, and opens and leaves sessions in it, has to stop
    waiting for what it leaves and to wait for what it opens. -/
theorem Paired.react {gone : Option Sid} (h : Paired gone s) (c : Client) {cfg : Config}
    (fx : Effects)
    (hm : t.mysql = (s.affect cfg fx).mysql) (hopened : t.opened = (s.affect cfg fx).opened)
    (hgone : ∀ sid ∈ gone, sid.party.client = c)
    (hothers : ∀ c' ≠ c, ∀ sid op, t.Waits sid op c' ↔ s.Waits sid op c')
    (hleave : ∀ sid op, s.Waits sid op c → op.autocommit = false →
      t.Waits sid op c ∨ fx.leaves = some sid ∨ gone = some sid)
    (hkeep : ∀ sid op, t.Waits sid op c →
      (gone ≠ some sid ∧ s.Waits sid op c ∧ ∀ op', s.Waits sid op' c → t.Waits sid op' c) ∨
      ∃ op', fx.opens = some (sid.party, op') ∧ sid.number = s.opened)
    (hopen : ∀ p op, fx.opens = some (p, op) → p.client = c ∧ t.Waits ⟨p, s.opened⟩ op c) :
    Paired none t := by
  have hnum {p : Party} {op : Op} (ho : fx.opens = some (p, op)) : s.opened < t.opened := by
    simp [hopened, affect_opened, ho]
  have hle : s.opened ≤ t.opened := by
    rw [hopened, affect_opened]
    exact Nat.le_add_right _ _
  constructor
  · intro sid y hy
    rw [hm] at hy
    rcases affect_opens fx hy with ⟨y', hy'⟩ | ⟨p, op, ho, rfl, -⟩
    · exact Nat.lt_of_lt_of_le (h.number sid y' hy') hle
    · exact hnum ho
  · intro sid y hy hatt hauto
    refine ⟨?_, by simp⟩
    rw [hm] at hy
    rcases affect_opens fx hy with ⟨y', hy'⟩ | ⟨p, op, ho, rfl, rfl⟩
    · rw [affect_session fx hy' (h.number sid y' hy')] at hy
      obtain rfl := Option.some.inj hy
      by_cases hl : fx.leaves = some sid
      · simp [hl] at hatt
      obtain ⟨hw, hg⟩ := h.attended sid y' hy' (by simpa [hl] using hatt) hauto
      by_cases hc : sid.party.client = c
      · rw [hc] at hw ⊢
        exact (hleave sid _ hw hauto).resolve_right (not_or.2 ⟨hl, hg⟩)
      · exact (hothers _ hc sid _).2 hw
    · obtain ⟨hc, hw⟩ := hopen p op ho
      exact hc ▸ hw
  · intro c' sid op hw
    by_cases hc : c' = c
    · subst hc
      rcases hkeep sid op hw with ⟨-, hw, -⟩ | ⟨op', ho, hn⟩
      · obtain ⟨hp, hn⟩ := h.party c' sid op hw
        exact ⟨hp, Nat.lt_of_lt_of_le hn hle⟩
      · exact ⟨(hopen _ _ ho).1, hn ▸ hnum ho⟩
    · obtain ⟨hp, hn⟩ := h.party c' sid op ((hothers c' hc sid op).1 hw)
      exact ⟨hp, Nat.lt_of_lt_of_le hn hle⟩
  · intro c' sid op hw
    refine .inr ?_
    rw [hm]
    by_cases hc : c' = c
    · subst hc
      rcases hkeep sid op hw with ⟨hg, hw, hall⟩ | ⟨op', ho, hn⟩
      · obtain ⟨y, hy, hwy⟩ := (h.waited c' sid op hw).resolve_left hg
        exact ⟨_, affect_session fx hy (h.number sid y hy), hall _ hwy⟩
      · obtain ⟨p, n⟩ := sid
        obtain rfl : n = s.opened := hn
        exact ⟨_, affect_new fx ho, (hopen _ _ ho).2⟩
    · have hw := (hothers c' hc sid op).1 hw
      have hg : gone ≠ some sid := fun hg => hc ((h.party c' sid op hw).1.symm.trans (hgone sid hg))
      obtain ⟨y, hy, hwy⟩ := (h.waited c' sid op hw).resolve_left hg
      exact ⟨_, affect_session fx hy (h.number sid y hy), (hothers c' hc sid _).2 hwy⟩

/-! ## Each client -/

theorem setWorker_waits {w : WorkerId} {x : Worker} {c : Client} (hc : c ≠ .worker w) (sid : Sid)
    (op : Op) : (s.setWorker w x).Waits sid op c ↔ s.Waits sid op c := by
  cases c with
  | worker w' =>
    have : w' ≠ w := fun h => hc (h ▸ rfl)
    simp [State.Waits, State.setWorker, Function.update_of_ne this]
  | _ => rfl

theorem setWorker_waits_self {w : WorkerId} {x : Worker} (sid : Sid) (op : Op) :
    (s.setWorker w x).Waits sid op (.worker w) ↔ x.phase.Waits w sid op := by
  simp [State.Waits, State.setWorker]

theorem worker_waits {w : WorkerId} {x : Worker} (hw : s.workers w = some x) (op : Op) :
    s.Waits sid op (.worker w) ↔ x.phase.Waits w sid op := by
  simp [State.Waits, hw]

/-- A cancelled phase waits for what it has waited for. -/
theorem cancel_waits {w : WorkerId} {p : Phase} {op : Op} :
    p.cancel.Waits w sid op ↔ p.Waits w sid op := by
  constructor
  · intro h
    cases p with
    | idle => exact h
    | acking => cases h
    | claiming h' => cases h; exact .claim
    | running => cases h; exact .renew
    | finishing => cases h; exact .finish
  · intro h
    cases h with
    | claim => exact .claim (h := Handle.cancel _)
    | finish => exact .finish
    | renew => exact .renew

/-- A worker waits for one transaction. -/
theorem Phase.Waits.session {w : WorkerId} {p : Phase} {op : Op} (h : p.Waits w sid op)
    (hop : op.autocommit = false) : p.session? = some sid := by
  cases h with
  | claim => rfl
  | finish => rfl
  | renew => cases hop

theorem Paired.acted (h : Paired none s) {w : WorkerId} {x x' : Worker} {fx : Effects}
    (hw : s.workers w = some x) (hx : Acted s w x x' fx) :
    Paired none ((s.affect cfg fx).setWorker w x') := by
  -- In terms of the phases of the worker alone.
  have key (hleave : ∀ sid op, x.phase.Waits w sid op → op.autocommit = false →
        x'.phase.Waits w sid op ∨ fx.leaves = some sid)
      (hkeep : ∀ sid op, x'.phase.Waits w sid op →
        (x.phase.Waits w sid op ∧ ∀ op', x.phase.Waits w sid op' → x'.phase.Waits w sid op') ∨
        ∃ op', fx.opens = some (sid.party, op') ∧ sid.number = s.opened)
      (hopen : ∀ p op, fx.opens = some (p, op) →
        p.client = .worker w ∧ x'.phase.Waits w ⟨p, s.opened⟩ op) :
      Paired none ((s.affect cfg fx).setWorker w x') := by
    refine h.react (.worker w) fx rfl rfl (by simp) (fun c hc sid op => setWorker_waits hc sid op)
      (fun sid op hs hop => ?_) (fun sid op ht => ?_) (fun p op ho => ?_)
    · rw [worker_waits hw] at hs
      rw [setWorker_waits_self]
      exact (hleave sid op hs hop).imp_right .inl
    · simp only [setWorker_waits_self, worker_waits hw] at ht ⊢
      exact (hkeep sid op ht).imp_left fun h => ⟨by simp, h⟩
    · rw [setWorker_waits_self]
      exact hopen p op ho
  cases hx with
  | same hp ho =>
    exact key (fun _ _ hs _ => .inl (hp ▸ hs)) (fun _ _ ht => .inl (by simpa [hp] using ht))
      (by simp [ho])
  | delivered h hx hp ho =>
    refine key (by simp only [hx]; rintro _ _ ⟨⟩) (fun _ _ ht => .inr ?_) (fun p op ho' => ?_)
    · rw [hp] at ht
      cases ht
      exact ⟨_, ho, rfl⟩
    · obtain ⟨rfl, rfl⟩ := Prod.mk.inj (Option.some.inj (ho.symm.trans ho'))
      exact ⟨rfl, hp ▸ .claim⟩
  | malformed e hx hp ho =>
    exact key (by simp only [hx]; rintro _ _ ⟨⟩) (by simp only [hp]; rintro _ _ ⟨⟩) (by simp [ho])
  | ticked hx hlive hp ho =>
    refine key (by simp only [hx]; rintro _ _ ⟨⟩) (fun _ _ ht => .inr ?_) (fun p op ho' => ?_)
    · rw [hp] at ht
      cases ht
      exact ⟨_, ho, rfl⟩
    · obtain ⟨rfl, rfl⟩ := Prod.mk.inj (Option.some.inj (ho.symm.trans ho'))
      exact ⟨rfl, hp ▸ .renew⟩
  | result hx hr hp ho =>
    refine key (fun sid op hs _ => .inl ?_) (fun sid op ht => .inl ⟨?_, fun op' hs => ?_⟩)
      (by simp [ho])
    · rw [hx] at hs
      cases hs
      exact hp ▸ .renew
    · rw [hp] at ht
      cases ht
      exact hx ▸ .renew
    · rw [hx] at hs
      cases hs
      exact hp ▸ .renew
  | panicked hx hp ho =>
    refine key (fun sid op hs hop => ?_) (by simp only [hp]; rintro _ _ ⟨⟩) (by simp [ho])
    rw [hx] at hs
    cases hs
    cases hop
  | retained hx hwhy hp ho =>
    refine key (fun sid op hs hop => ?_) (by simp only [hp]; rintro _ _ ⟨⟩) (by simp [ho])
    rw [hx] at hs
    cases hs
    cases hop
  | settled hx hlive hout hp ho =>
    refine key (by simp only [hx]; rintro _ _ ⟨⟩) (fun _ _ ht => .inr ?_) (fun p op ho' => ?_)
    · rw [hp] at ht
      cases ht
      exact ⟨_, ho, rfl⟩
    · obtain ⟨rfl, rfl⟩ := Prod.mk.inj (Option.some.inj (ho.symm.trans ho'))
      exact ⟨rfl, hp ▸ .finish⟩
  | acked hx hp ho =>
    exact key (by simp only [hx]; rintro _ _ ⟨⟩) (by simp only [hp]; rintro _ _ ⟨⟩) (by simp [ho])
  | abandoned hx hp ho =>
    refine key (fun _ _ hs _ => .inl ?_) (fun _ _ ht => .inl ?_) (by simp [ho])
    · rw [hp, cancel_waits]
      exact hs
    · rw [hp, cancel_waits] at ht
      exact ⟨ht, fun op' hs => hp ▸ cancel_waits.2 hs⟩
  | crashed hp ho hl =>
    refine key (fun sid op hs hop => .inr ?_) (by simp only [hp]; rintro _ _ ⟨⟩) (by simp [ho])
    rw [hl, hs.session hop]

/-- Whoever is told has waited for the session, and waits for nothing then. -/
theorem Told.waits {w : WorkerId} {x x' : Worker} {fx : Effects} {a : Option Answer}
    (h : Told w sid a x x' fx) : (∀ sid' op, x.phase.Waits w sid' op → sid' = sid) ∧
      ∀ sid' op, ¬ x'.phase.Waits w sid' op := by
  have one {p p' : Phase} (hp : ∀ sid' op, p.Waits w sid' op → sid' = sid)
      (hp' : ∀ sid' op, ¬ p'.Waits w sid' op) (hx : x.phase = p) (hx' : x'.phase = p') :
      (∀ sid' op, x.phase.Waits w sid' op → sid' = sid) ∧
        ∀ sid' op, ¬ x'.phase.Waits w sid' op := ⟨hx ▸ hp, hx' ▸ hp'⟩
  cases h with
  | claimed hx _ _ hp => exact one (by rintro _ _ ⟨⟩; rfl) (by rintro _ _ ⟨⟩) hx hp
  | unregistered hx _ _ hp => exact one (by rintro _ _ ⟨⟩; rfl) (by rintro _ _ ⟨⟩) hx hp
  | nothing hx _ hp => exact one (by rintro _ _ ⟨⟩; rfl) (by rintro _ _ ⟨⟩) hx hp
  | unclaimed hx _ _ hp => exact one (by rintro _ _ ⟨⟩; rfl) (by rintro _ _ ⟨⟩) hx hp
  | finished hx _ _ hp => exact one (by rintro _ _ ⟨⟩; rfl) (by rintro _ _ ⟨⟩) hx hp
  | unfinished hx _ _ hp => exact one (by rintro _ _ ⟨⟩; rfl) (by rintro _ _ ⟨⟩) hx hp
  | renewed hx _ hp => exact one (by rintro _ _ ⟨⟩; rfl) (by rintro _ _ ⟨⟩) hx hp
  | unrenewed hx _ hp => exact one (by rintro _ _ ⟨⟩; rfl) (by rintro _ _ ⟨⟩) hx hp

theorem Paired.told (h : Paired (some sid) s) {w : WorkerId} {x x' : Worker} {fx : Effects}
    {a : Option Answer} (hparty : sid.party.client = .worker w) (hw : s.workers w = some x)
    (hx : x.returned w sid a = some (x', fx)) :
    Paired none ((s.affect cfg fx).setWorker w x') := by
  obtain ⟨ho, -⟩ := returned_effects hx
  obtain ⟨hself, hnone⟩ := (returned_cases hx).waits
  refine h.react (.worker w) fx rfl rfl (by simpa using hparty)
    (fun c hc sid op => setWorker_waits hc sid op) (fun sid' op hs _ => ?_) (fun sid' op ht => ?_)
    (by simp [ho])
  · rw [worker_waits hw] at hs
    rw [hself sid' op hs]
    exact .inr (.inr rfl)
  · rw [setWorker_waits_self] at ht
    exact absurd ht (hnone sid' op)

/-- A worker that waits for a session takes its answer. -/
theorem Phase.Waits.returned {w : WorkerId} {x : Worker} {op : Op} (h : x.phase.Waits w sid op)
    (a : Option Answer) : x.returned w sid a ≠ none := by
  generalize hp : x.phase = p at h
  cases h <;> simp [Worker.returned, hp]

theorem Call.Waits.session {x : Call} {op : Op} (h : x.Waits sid op) : x.session? = some sid := by
  cases h <;> rfl

theorem setDispatcher_waits {d : ℕ} {x : Dispatcher} {c : Client} (hc : c ≠ .dispatcher d)
    (sid : Sid) (op : Op) : (s.setDispatcher d x).Waits sid op c ↔ s.Waits sid op c := by
  cases c with
  | dispatcher d' =>
    have : d' ≠ d := fun h => hc (h ▸ rfl)
    simp [State.Waits, State.setDispatcher, Function.update_of_ne this]
  | _ => rfl

theorem setCall_waits {n : ℕ} {x : Call} {c : Client} (hc : c ≠ .call n) (sid : Sid) (op : Op) :
    (s.setCall n x).Waits sid op c ↔ s.Waits sid op c := by
  cases c with
  | call n' =>
    have : n' ≠ n := fun h => hc (h ▸ rfl)
    simp [State.Waits, State.setCall, Function.update_of_ne this]
  | _ => rfl

/-- A dispatcher that takes a step. -/
theorem Paired.dispatcher {gone : Option Sid} (h : Paired gone s) {d : ℕ} {x' : Dispatcher}
    (cfg : Config) (fx : Effects) (hgone : ∀ sid ∈ gone, sid.party.client = .dispatcher d)
    (hleave : ∀ x, s.dispatchers d = some x → ∀ sid, x.session = some sid →
      x'.session = some sid ∨ fx.leaves = some sid ∨ gone = some sid)
    (hkeep : ∀ sid, x'.session = some sid →
      (gone ≠ some sid ∧ ∃ x, s.dispatchers d = some x ∧ x.session = some sid) ∨
      ∃ op, fx.opens = some (sid.party, op) ∧ sid.number = s.opened)
    (hopen : ∀ p op, fx.opens = some (p, op) →
      p = .dispatcher d ∧ op = .dispatch ∧ x'.session = some ⟨p, s.opened⟩) :
    Paired none ((s.affect cfg fx).setDispatcher d x') := by
  have hself (sid : Sid) (op : Op) : ((s.affect cfg fx).setDispatcher d x').Waits sid op
      (.dispatcher d) ↔ op = .dispatch ∧ x'.session = some sid := by
    simp [State.Waits, State.setDispatcher]
  refine h.react (.dispatcher d) fx rfl rfl hgone
    (fun c hc sid op => setDispatcher_waits hc sid op) (fun sid op hs _ => ?_)
    (fun sid op ht => ?_) (fun p op ho => ?_)
  · obtain ⟨hop, x, hx, hsid⟩ := hs
    exact (hleave x hx sid hsid).imp_left fun h => (hself sid op).2 ⟨hop, h⟩
  · obtain ⟨hop, hsid⟩ := (hself sid op).1 ht
    refine (hkeep sid hsid).imp_left fun ⟨hg, x, hx, hxs⟩ => ⟨hg, ⟨hop, x, hx, hxs⟩, ?_⟩
    exact fun op' hs => (hself sid op').2 ⟨hs.1, hsid⟩
  · obtain ⟨rfl, hop, hsid⟩ := hopen p op ho
    exact ⟨rfl, (hself _ _).2 ⟨hop, hsid⟩⟩

/-- A call that goes on waits for the query it has sent, if it has. -/
theorem proceed_waits {n c : ℕ} {x x' : Call} {a : Option Answer} {fx : Effects}
    (h : Call.proceed n c x a = (x', fx)) : fx.leaves = none ∧
      ((fx.opens = none ∧ ∀ sid op, ¬ x'.Waits sid op) ∨
        ∃ op, fx.opens = some (.call c, op) ∧ x'.Waits ⟨.call c, n⟩ op ∧
          ∀ sid op', x'.Waits sid op' → sid = ⟨.call c, n⟩ ∧ op' = op) := by
  cases proceed_cases h with
  | fetch => exact ⟨rfl, .inr ⟨_, rfl, .fetching, by rintro _ _ ⟨⟩; exact ⟨rfl, rfl⟩⟩⟩
  | refetch => exact ⟨rfl, .inr ⟨_, rfl, .refetching, by rintro _ _ ⟨⟩; exact ⟨rfl, rfl⟩⟩⟩
  | resolve hreq =>
    refine ⟨rfl, .inr ⟨_, rfl, .resolving hreq, ?_⟩⟩
    rintro _ _ (hw : Call.Waits _ _ _)
    cases hw with
    | resolving hreq' =>
      obtain ⟨rfl, -⟩ : _ ∧ _ := by simpa [hreq] using hreq'
      exact ⟨rfl, rfl⟩
  | _ => exact ⟨rfl, .inl ⟨rfl, by rintro _ _ ⟨⟩⟩⟩

/-- A call that starts, or goes on after its query has ended. -/
theorem Paired.called {gone : Option Sid} (h : Paired gone s) {c : ℕ} {x' : Call} (cfg : Config)
    (fx : Effects)
    (hc : ∀ sid op, s.Waits sid op (.call c) → gone = some sid)
    (hgone : ∀ sid ∈ gone, sid.party.client = .call c)
    (hx : (fx.opens = none ∧ ∀ sid op, ¬ x'.Waits sid op) ∨
      ∃ op, fx.opens = some (.call c, op) ∧ x'.Waits ⟨.call c, s.opened⟩ op ∧
        ∀ sid op', x'.Waits sid op' → sid = ⟨.call c, s.opened⟩ ∧ op' = op) :
    Paired none ((s.affect cfg fx).setCall c x') := by
  have hself (sid : Sid) (op : Op) :
      ((s.affect cfg fx).setCall c x').Waits sid op (.call c) ↔ x'.Waits sid op := by
    simp [State.Waits, State.setCall]
  refine h.react (.call c) fx rfl rfl hgone (fun c hc sid op => setCall_waits hc sid op)
    (fun sid op hs _ => .inr (.inr (hc sid op hs))) (fun sid op ht => .inr ?_) (fun p op ho => ?_)
  · rcases hx with ⟨-, hnone⟩ | ⟨op', ho, -, hall⟩
    · exact absurd ((hself sid op).1 ht) (hnone sid op)
    · obtain ⟨rfl, rfl⟩ := hall sid op ((hself sid op).1 ht)
      exact ⟨_, ho, rfl⟩
  · rcases hx with ⟨hnone, -⟩ | ⟨op', ho', hw, -⟩
    · simp [hnone] at ho
    · obtain ⟨rfl, rfl⟩ := Prod.mk.inj (Option.some.inj (ho'.symm.trans ho))
      exact ⟨rfl, (hself _ _).2 hw⟩

theorem Paired.delivered {s' : State} {a : Option Answer} {es : List Event}
    (h : Paired (some sid) s) (hd : Delivered cfg s sid a s' es) : Paired none s' := by
  cases hd with
  | nobody hw hd hc =>
    -- Nobody has waited, so it does not matter that the session is gone.
    have hnobody (c : Client) (op : Op) : ¬ s.Waits sid op c := by
      intro hwait
      obtain ⟨hparty, -⟩ := h.party c sid op hwait
      cases c with
      | worker w =>
        obtain ⟨x, hx, hp⟩ := hwait
        refine hp.returned a (hw w x ?_ hx)
        cases hsid : sid.party <;> simp_all [Party.client]
      | dispatcher d =>
        obtain ⟨-, x, hx, hsid⟩ := hwait
        refine hd d x ?_ hx hsid
        cases hsid : sid.party <;> simp_all [Party.client]
      | call c =>
        obtain ⟨x, hx, hp⟩ := hwait
        refine hc c x ?_ hx hp.session
        cases hsid : sid.party <;> simp_all [Party.client]
    refine ⟨h.number, fun sid' y hy ha hop => ⟨(h.attended sid' y hy ha hop).1, by simp⟩, h.party,
      fun c sid' op hw => (h.waited c sid' op hw).imp_left fun hsid => ?_⟩
    obtain rfl := Option.some.inj hsid
    exact absurd hw (hnobody c op)
  | worker hparty hw hx => exact h.told (by rcases hparty with hp | hp <;> rw [hp] <;> rfl) hw hx
  | dispatcher hparty hd hx =>
    refine h.dispatcher cfg {} (fun sid' hsid => ?_)
      (fun y hy sid' hsid => ?_) (by simp) (by simp)
    · obtain rfl := Option.some.inj hsid
      rw [hparty]
      rfl
    · obtain rfl := Option.some.inj (hd.symm.trans hy)
      exact .inr (.inr (hx.symm.trans hsid))
  | call hparty hc hx hp =>
    refine h.called cfg _ (fun sid' op hw => ?_) (fun sid' hsid => ?_) (proceed_waits hp).2
    · obtain ⟨y, hy, hw⟩ := hw
      obtain rfl := Option.some.inj (hc.symm.trans hy)
      exact hx.symm.trans hw.session
    · obtain rfl := Option.some.inj hsid
      rw [hparty]
      rfl

/-! ## The database -/

/-- A statement, or the answer to a call, leaves everybody waiting. -/
theorem Paired.mysql (h : Paired none s) {m : MySQL}
    (hm : ∀ sid y, m.sessions sid = some y → ∃ y', s.mysql.sessions sid = some y' ∧
      y.op = y'.op ∧ (y.attended = true → y'.attended = true))
    (hm' : ∀ sid y, s.mysql.sessions sid = some y → ∃ y', m.sessions sid = some y' ∧ y'.op = y.op) :
    Paired none { s with mysql := m } where
  number sid y hy := by
    obtain ⟨y', hy', -⟩ := hm sid y hy
    exact h.number sid y' hy'
  attended sid y hy ha hop := by
    obtain ⟨y', hy', heq, ha'⟩ := hm sid y hy
    have := (h.attended sid y' hy' (ha' ha) (heq ▸ hop)).1
    exact ⟨heq ▸ this, by simp⟩
  party := h.party
  waited c sid op hw := by
    obtain ⟨y, hy, hwy⟩ := (h.waited c sid op hw).resolve_left (by simp)
    obtain ⟨y', hy', heq⟩ := hm' sid y hy
    exact .inr ⟨y', hy', heq ▸ hwy⟩

theorem exec_sessions {m m' : MySQL} {now : ℕ} (h : m.exec sid now = some m') :
    (∀ sid' y, m'.sessions sid' = some y → ∃ y', m.sessions sid' = some y' ∧ y.op = y'.op ∧
      (y.attended = true → y'.attended = true)) ∧
    ∀ sid' y, m.sessions sid' = some y → ∃ y', m'.sessions sid' = some y' ∧ y'.op = y.op := by
  obtain ⟨-, -, -, -, x, x', hx, hs, hop, -, -, ha, ha'⟩ := Server.exec_cases h
  refine ⟨fun sid' y hy => ?_, fun sid' y hy => ?_⟩ <;> by_cases hsid : sid' = sid
  · subst hsid
    obtain rfl : x' = y := by simpa [hs] using hy
    exact ⟨x, hx, hop, fun _ => ha⟩
  · exact ⟨y, by simpa [hs, hsid] using hy, rfl, id⟩
  · subst hsid
    obtain rfl := Option.some.inj (hx.symm.trans hy)
    exact ⟨x', by simp [hs], hop⟩
  · exact ⟨y, by simpa [hs, hsid] using hy, rfl⟩

theorem answer_sessions {m m' : MySQL} {b : Bool} (h : m.answer sid b = some m') :
    (∀ sid' y, m'.sessions sid' = some y → ∃ y', m.sessions sid' = some y' ∧ y.op = y'.op ∧
      (y.attended = true → y'.attended = true)) ∧
    ∀ sid' y, m.sessions sid' = some y → ∃ y', m'.sessions sid' = some y' ∧ y'.op = y.op := by
  obtain ⟨x, c, next, hx, -, rfl⟩ := Server.answer_cases h
  refine ⟨fun sid' y hy => ?_, fun sid' y hy => ?_⟩ <;> by_cases hsid : sid' = sid
  · subst hsid
    obtain rfl : _ = y := Option.some.inj (by simpa using hy)
    exact ⟨x, hx, rfl, id⟩
  · exact ⟨y, by simpa [hsid] using hy, rfl, id⟩
  · subst hsid
    obtain rfl := Option.some.inj (hx.symm.trans hy)
    exact ⟨_, Function.update_self _ _ _, rfl⟩
  · exact ⟨y, by simpa [hsid] using hy, rfl⟩

theorem close_sessions {m m' : MySQL} {how : Closing} {c : Closed Answer Op}
    (h : m.close sid how = some (m', c)) : m'.sessions = Function.update m.sessions sid none := by
  obtain ⟨t, rfl⟩ := Server.close_drop h
  rfl

theorem Paired.close (h : Paired none s) {m : MySQL} {how : Closing} {c : Closed Answer Op}
    (hm : s.mysql.close sid how = some (m, c)) : Paired (some sid) { s with mysql := m } := by
  have hs := close_sessions hm
  have hother {sid' : Sid} {y : Conn} (hy : m.sessions sid' = some y) :
      sid' ≠ sid ∧ s.mysql.sessions sid' = some y := by
    have hne : sid' ≠ sid := by rintro rfl; simp [hs] at hy
    exact ⟨hne, by simpa [hs, hne] using hy⟩
  refine ⟨fun sid' y hy => h.number sid' y (hother hy).2, fun sid' y hy ha hop => ?_, h.party,
    fun c sid' op hw => ?_⟩
  · obtain ⟨hne, hy⟩ := hother hy
    exact ⟨(h.attended sid' y hy ha hop).1, by simpa using hne.symm⟩
  · by_cases hsid : sid' = sid
    · exact .inl (congrArg some hsid.symm)
    · obtain ⟨y, hy, hwy⟩ := (h.waited c sid' op hw).resolve_left (by simp)
      exact .inr ⟨y, by simpa [hs, hsid] using hy, hwy⟩

theorem Paired.forsake (h : Paired none s) {x : Conn} (hx : s.mysql.sessions sid = some x) :
    Paired (some sid) (s.forsake sid x) := by
  have hs : (s.forsake sid x).mysql.sessions = Function.update s.mysql.sessions sid
      (some { x with attended := if x.op.autocommit then x.attended else false }) := by
    unfold State.forsake
    cases hop : x.op.autocommit with
    | true => simp [hx]
    | false => simp [Server.leave, hx]
  refine ⟨fun sid' y hy => ?_, fun sid' y hy ha hop => ?_, h.party, fun c sid' op hw => ?_⟩ <;>
    by_cases hsid : sid' = sid
  · exact hsid ▸ h.number sid x hx
  · exact h.number sid' y (by simpa [hs, hsid] using hy)
  · subst hsid
    obtain rfl : _ = y := Option.some.inj (by simpa [hs] using hy)
    simp_all
  · have hy : s.mysql.sessions sid' = some y := by simpa [hs, hsid] using hy
    exact ⟨(h.attended sid' y hy ha hop).1, by simpa using Ne.symm hsid⟩
  · exact .inl (congrArg some hsid.symm)
  · obtain ⟨y, hy, hwy⟩ := (h.waited c sid' op hw).resolve_left (by simp)
    exact .inr ⟨y, by simpa [hs, hsid] using hy, hwy⟩

/-- Every step keeps sessions and those who wait for them together. -/
theorem Paired.step (h : Paired none s) {a : Action} {s' : State} {es : List Event}
    (hs : Stepped cfg s a s' es) : Paired none s' := by
  have idle {c : ℕ} (hc : s.calls c = none) (sid : Sid) (op : Op)
      (hw : s.Waits sid op (.call c)) : (none : Option Sid) = some sid := by
    obtain ⟨x, hx, -⟩ := hw
    simp [hc] at hx
  cases hs with
  | advance d => exact ⟨h.number, h.attended, h.party, h.waited⟩
  | exec hm => exact h.mysql (exec_sessions hm).1 (exec_sessions hm).2
  | close hm hd => exact (h.close hm).delivered hd
  | giveUp hm hd => exact (h.forsake hm).delivered hd
  | publish _ hm =>
    have := h.mysql (answer_sessions hm).1 (answer_sessions hm).2
    exact ⟨this.number, this.attended, this.party, this.waited⟩
  | publishLost _ hm => exact h.mysql (answer_sessions hm).1 (answer_sessions hm).2
  | @startWorker w hw =>
    -- There was no worker before, and the new one waits for nothing.
    have hsame (c : Client) (sid : Sid) (op : Op) :
        (s.setWorker w (.start s.mysql.clock)).Waits sid op c ↔ s.Waits sid op c := by
      by_cases hc : c = .worker w
      · subst hc
        rw [setWorker_waits_self]
        simp only [State.Waits, hw, Worker.start]
        exact ⟨nofun, by simp⟩
      · exact setWorker_waits hc sid op
    refine ⟨h.number, fun sid y hy ha hop => ?_, fun c sid op hc => ?_, fun c sid op hc => ?_⟩
    · exact ⟨(hsame _ _ _).2 (h.attended sid y hy ha hop).1, by simp⟩
    · exact h.party c sid op ((hsame _ _ _).1 hc)
    · obtain ⟨y, hy, hwy⟩ := (h.waited c sid op ((hsame _ _ _).1 hc)).resolve_left (by simp)
      exact .inr ⟨y, hy, (hsame _ _ _).2 hwy⟩
  | worker hw _ hx => exact h.acted hw (act_cases hx)
  | startDispatcher hd =>
    exact h.dispatcher cfg {} (by simp) (by simp [hd]) (by simp) (by simp)
  | @dispatch d hd =>
    refine h.dispatcher cfg { opens := some (.dispatcher d, .dispatch) } (by simp) (by simp [hd])
      (fun sid hsid => .inr ?_)
      fun p op ho => ?_
    · obtain rfl := Option.some.inj hsid
      exact ⟨_, rfl, rfl⟩
    · obtain ⟨rfl, rfl⟩ := Prod.mk.inj (Option.some.inj ho)
      exact ⟨rfl, rfl, rfl⟩
  | stopDispatcher hd =>
    refine h.dispatcher cfg {} (by simp) (fun y hy sid hsid => ?_)
      (fun sid hsid => .inl ⟨by simp, _, hd, hsid⟩) (by simp)
    obtain rfl := Option.some.inj (hd.symm.trans hy)
    exact .inl hsid
  | @crashDispatcher d x hd =>
    refine h.dispatcher cfg { leaves := x.session } (by simp) (fun y hy sid hsid => ?_) (by simp)
      (by simp)
    obtain rfl := Option.some.inj (hd.symm.trans hy)
    exact .inr (.inl hsid)
  | badKey hc =>
    exact h.called cfg {} (idle hc) (by simp) (.inl ⟨rfl, by rintro _ _ ⟨⟩⟩)
  | @createJob c _ _ key input id hc =>
    exact h.called cfg { opens := some (.call c, .createJob (newJob cfg input id key)) } (idle hc)
      (by simp)
      (.inr ⟨_, rfl, .creating, by rintro _ _ ⟨⟩; exact ⟨rfl, rfl⟩⟩)
  | @requeueJob c id hc =>
    exact h.called cfg { opens := some (.call c, .requeueJob id) } (idle hc) (by simp)
      (.inr ⟨_, rfl, .requeueing, by rintro _ _ ⟨⟩; exact ⟨rfl, rfl⟩⟩)
  | inject => exact ⟨h.number, h.attended, h.party, h.waited⟩
  | dropStream => exact ⟨h.number, h.attended, h.party, h.waited⟩

/-! ## What becomes of a session -/

/-- The sessions that are opened in a step, by whom and for what. -/
inductive Opens (cfg : Config) (s : State) (es : List Event) : Party → Op → Prop
  | claim {w e id g} (he : .delivered w s.handled e ∈ es) (hdec : decode e.values = some (id, g)) :
      Opens cfg s es (.worker w) (.claim id g w)
  | finish {w x h j r jitter e message delay} (hw : s.workers w = some x)
      (hx : x.phase = .running h j (some r) .waiting)
      (hout : outcome j r jitter = some (e, message, delay)) :
      Opens cfg s es (.worker w) (.finish j e message delay)
  | renew {w x h j r} (hw : s.workers w = some x) (hx : x.phase = .running h j r .waiting) :
      Opens cfg s es (.beat w) (.renew j)
  | dispatch {d} : Opens cfg s es (.dispatcher d) .dispatch
  | createJob {c clientId header key input id} (hkey : requestKeyOf clientId header = some key)
      (he : .called c (newJob cfg input id key) ∈ es) :
      Opens cfg s es (.call c) (.createJob (newJob cfg input id key))
  | requeueJob {c id} : Opens cfg s es (.call c) (.requeueJob id)
  | selectById {c id} : Opens cfg s es (.call c) (.selectById id)
  | selectByRequestKey {c h} : Opens cfg s es (.call c) (.selectByRequestKey h)

theorem Opens.mono {es es' : List Event} {p : Party} {op : Op} (h : Opens cfg t es p op)
    (hw : t.workers = s.workers) (hh : t.handled = s.handled) (he : ∀ e ∈ es, e ∈ es') :
    Opens cfg s es' p op := by
  cases h with
  | claim hmem hdec => exact .claim (hh ▸ he _ hmem) hdec
  | finish hx hp hout => exact .finish (hw ▸ hx) hp hout
  | renew hx hp => exact .renew (hw ▸ hx) hp
  | dispatch => exact .dispatch
  | createJob hkey hmem => exact .createJob hkey (he _ hmem)
  | requeueJob => exact .requeueJob
  | selectById => exact .selectById
  | selectByRequestKey => exact .selectByRequestKey

theorem Acted.opens {w : WorkerId} {x x' : Worker} {fx : Effects} (hw : s.workers w = some x)
    (hx : Acted s w x x' fx) : ∀ p op, fx.opens = some (p, op) → Opens cfg s fx.events p op := by
  intro p op ho'
  cases hx with
  | delivered h _ _ ho _ _ he hnum _ hdec =>
    obtain ⟨rfl, rfl⟩ := Prod.mk.inj (Option.some.inj (ho.symm.trans ho'))
    exact .claim (by rw [he, ← hnum]; exact List.mem_cons_self) hdec
  | ticked hx _ _ ho =>
    obtain ⟨rfl, rfl⟩ := Prod.mk.inj (Option.some.inj (ho.symm.trans ho'))
    exact .renew hw hx
  | settled hx _ hout _ ho =>
    obtain ⟨rfl, rfl⟩ := Prod.mk.inj (Option.some.inj (ho.symm.trans ho'))
    exact .finish hw hx hout
  | _ => simp_all

theorem proceed_opens {n c : ℕ} {x x' : Call} {a : Option Answer} {fx : Effects}
    {es : List Event} (h : Call.proceed n c x a = (x', fx)) :
    ∀ p op, fx.opens = some (p, op) → Opens cfg s es p op := by
  intro p op ho
  cases proceed_cases h with
  | fetch | refetch =>
    obtain ⟨rfl, rfl⟩ := Prod.mk.inj (Option.some.inj ho)
    exact .selectById
  | resolve =>
    obtain ⟨rfl, rfl⟩ := Prod.mk.inj (Option.some.inj ho)
    exact .selectByRequestKey
  | _ => cases ho

/-- Where a session `y` of the state after a step comes from. -/
inductive Continues (cfg : Config) (s : State) (a : Action) (es : List Event) (sid : Sid)
    (y : Conn) : Prop
  | stays {y' : Conn} (hy : s.mysql.sessions sid = some y') (hop : y.op = y'.op)
      (hbegan : y.began = y'.began) (hrest : y.rest = y'.rest) (hwrites : y.writes = y'.writes)
  | runs {y' : Conn} {now : ℕ} (ha : a = .exec sid now) (hy : s.mysql.sessions sid = some y')
      (hop : y.op = y'.op) (hbegan : y.began = y'.began) (hatt : y'.attended = true)
      (hran : Server.Ran y' y)
  | answered {y' : Conn} {o : OutboxRow} {next : Bool → Tx} {applied ok : Bool}
      (hy : s.mysql.sessions sid = some y') (hop : y.op = y'.op) (hbegan : y.began = y'.began)
      (hrest : y'.rest = .call o next) (ha : a = .publish sid applied ok)
      (hnext : y.rest = next ok) (hwrites : y.writes = y'.writes)
  | opened (hnum : sid.number = s.opened) (hbegan : y.began = s.mysql.clock)
      (hrest : y.rest = y.op.script cfg) (hby : Opens cfg s es sid.party y.op)
      (hwrites : y.writes = [])

theorem affect_continues {a : Action} {es : List Event} (fx : Effects) {y : Conn}
    (hnum : ∀ y', s.mysql.sessions sid = some y' → sid.number < s.opened)
    (hopens : ∀ p op, fx.opens = some (p, op) → Opens cfg s es p op)
    (hy : (s.affect cfg fx).mysql.sessions sid = some y) : Continues cfg s a es sid y := by
  rcases affect_opens fx hy with ⟨y', hy'⟩ | ⟨p, op, ho, rfl, rfl⟩
  · rw [affect_session fx hy' (hnum y' hy')] at hy
    obtain rfl := Option.some.inj hy
    exact .stays hy' rfl rfl rfl rfl
  · exact .opened rfl rfl rfl (hopens p op ho) rfl

theorem Continues.mono {a : Action} {es es' : List Event} {y : Conn}
    (h : Continues cfg t a es sid y) (hby : ∀ p op, Opens cfg t es p op → Opens cfg s es' p op)
    (ho : t.opened = s.opened) (hc : t.mysql.clock = s.mysql.clock)
    (hs : ∀ y, t.mysql.sessions sid = some y → ∃ y', s.mysql.sessions sid = some y' ∧
      y.op = y'.op ∧ y.began = y'.began ∧ y.rest = y'.rest ∧ y.writes = y'.writes ∧
      (y.attended = true → y'.attended = true)) : Continues cfg s a es' sid y := by
  cases h with
  | stays hy hop hb hr hw =>
    obtain ⟨y', hy', hop', hb', hr', hw', -⟩ := hs _ hy
    exact .stays hy' (hop.trans hop') (hb.trans hb') (hr.trans hr') (hw.trans hw')
  | runs ha hy hop hb hatt hran =>
    obtain ⟨y', hy', hop', hb', hr', hw', hatt'⟩ := hs _ hy
    refine .runs ha hy' (hop.trans hop') (hb.trans hb') (hatt' hatt) ?_
    cases hran with
    | stmt hx hy hw => exact .stmt (hr' ▸ hx) hy (hw' ▸ hw)
    | scan hx hy hw => exact .scan (hr' ▸ hx) hy (hw' ▸ hw)
    | read hx hy hw => exact .read (hr' ▸ hx) hy (hw' ▸ hw)
  | answered hy hop hb hr ha hnext hw =>
    obtain ⟨y', hy', hop', hb', hr', hw', -⟩ := hs _ hy
    exact .answered hy' (hop.trans hop') (hb.trans hb') (hr'.symm.trans hr) ha hnext
      (hw.trans hw')
  | opened hnum hb hr hop hw => exact .opened (hnum.trans ho) (hb.trans hc) hr (hby _ _ hop) hw

theorem Delivered.continues {sid₀ : Sid} {a : Action} {b : Option Answer} {s' : State}
    {es : List Event} {y : Conn} (hd : Delivered cfg s sid₀ b s' es)
    (hnum : ∀ y', s.mysql.sessions sid = some y' → sid.number < s.opened)
    (hy : s'.mysql.sessions sid = some y) : Continues cfg s a es sid y := by
  cases hd with
  | nobody => exact .stays hy rfl rfl rfl rfl
  | worker _ _ hx =>
    exact affect_continues _ hnum (by simp [(returned_effects hx).1]) hy
  | dispatcher => exact .stays hy rfl rfl rfl rfl
  | call _ _ _ hp => exact affect_continues _ hnum (proceed_opens hp) hy

theorem answer_continues {es : List Event} {m : MySQL} {sid' : Sid} {applied ok : Bool} {y : Conn}
    (hm : s.mysql.answer sid' ok = some m) (hy : m.sessions sid = some y) :
    Continues cfg s (.publish sid' applied ok) es sid y := by
  obtain ⟨x, o, next, hx, hr, rfl⟩ := Server.answer_cases hm
  by_cases hsid : sid = sid'
  · subst hsid
    obtain rfl : _ = y := Option.some.inj (by simpa using hy)
    exact .answered hx rfl rfl hr rfl rfl rfl
  · exact .stays (by simpa [hsid] using hy) rfl rfl rfl rfl

theorem Stepped.continues {a : Action} {s' : State} {es : List Event} {y : Conn}
    (hs : Stepped cfg s a s' es) (h : Paired none s) (hy : s'.mysql.sessions sid = some y) :
    Continues cfg s a es sid y := by
  have hnum := h.number sid
  cases hs with
  | advance => exact .stays hy rfl rfl rfl rfl
  | @exec sid' now m hm =>
    obtain ⟨x, keys, z, hx, hatt, -, -, rfl, hex⟩ := Server.exec_inv hm
    by_cases hsid : sid = sid'
    · subst hsid
      obtain rfl : z = y := Option.some.inj (by simpa [Server.goOn] using hy)
      exact .runs rfl hx hex.same.1 hex.same.2.1 hatt hex.ran
    · exact .stays (by simpa [Server.goOn, hsid] using hy) rfl rfl rfl rfl
  | @close sid' how m c _ _ hm hd =>
    -- The session that is closed is gone; the answer may open another.
    have hs := close_sessions hm
    have hother {y : Conn} (hy : m.sessions sid = some y) :
        s.mysql.sessions sid = some y := by
      by_cases hsid : sid = sid'
      · simp [hs, hsid] at hy
      · simpa [hs, hsid] using hy
    refine (hd.continues (fun y' hy' => hnum y' (hother hy')) hy).mono (fun p op h => ?_) rfl ?_
      fun y hy => ?_
    · exact h.mono rfl rfl fun _ => List.mem_cons_of_mem _
    · obtain ⟨t, rfl⟩ := Server.close_drop hm
      rfl
    · exact ⟨y, hother hy, rfl, rfl, rfl, rfl, id⟩
  | @giveUp sid' x _ _ hx hd =>
    -- The session goes on without its client.
    have hother {y : Conn} (hy : (s.forsake sid' x).mysql.sessions sid = some y) :
        ∃ y', s.mysql.sessions sid = some y' ∧ y.op = y'.op ∧ y.began = y'.began ∧
          y.rest = y'.rest ∧ y.writes = y'.writes ∧ (y.attended = true → y'.attended = true) := by
      unfold State.forsake at hy
      split at hy
      · exact ⟨y, hy, rfl, rfl, rfl, rfl, id⟩
      · by_cases hsid : sid = sid'
        · subst hsid
          obtain rfl : _ = y := Option.some.inj (by simpa [Server.leave, hx] using hy)
          exact ⟨x, hx, rfl, rfl, rfl, rfl, by simp⟩
        · exact ⟨y, by simpa [Server.leave, hsid] using hy, rfl, rfl, rfl, rfl, id⟩
    refine (hd.continues (fun y' hy' => ?_) hy).mono (fun p op h => ?_) rfl ?_
      fun y hy => hother hy
    · obtain ⟨y'', hy'', -⟩ := hother hy'
      exact hnum y'' hy''
    · exact h.mono rfl rfl fun _ he => he
    · unfold State.forsake
      split <;> rfl
  | publish _ hm => exact answer_continues hm hy
  | publishLost _ hm => exact answer_continues hm hy
  | startWorker => exact .stays hy rfl rfl rfl rfl
  | worker hw _ hx => exact affect_continues _ hnum ((act_cases hx).opens hw) hy
  | startDispatcher => exact .stays hy rfl rfl rfl rfl
  | @dispatch d =>
    refine affect_continues { opens := some (.dispatcher d, .dispatch) } hnum (fun p op ho => ?_) hy
    obtain ⟨rfl, rfl⟩ := Prod.mk.inj (Option.some.inj ho)
    exact .dispatch
  | stopDispatcher => exact .stays hy rfl rfl rfl rfl
  | @crashDispatcher _ x => exact affect_continues { leaves := x.session } hnum (by simp) hy
  | badKey => exact .stays hy rfl rfl rfl rfl
  | @createJob c _ _ key input id _ hkey =>
    refine affect_continues { opens := some (.call c, .createJob (newJob cfg input id key)) } hnum
      (fun p op ho => ?_) hy
    obtain ⟨rfl, rfl⟩ := Prod.mk.inj (Option.some.inj ho)
    exact .createJob hkey List.mem_cons_self
  | @requeueJob c id =>
    refine affect_continues { opens := some (.call c, .requeueJob id) } hnum (fun p op ho => ?_) hy
    obtain ⟨rfl, rfl⟩ := Prod.mk.inj (Option.some.inj ho)
    exact .requeueJob
  | inject => exact .stays hy rfl rfl rfl rfl
  | dropStream => exact .stays hy rfl rfl rfl rfl

/-! ## Runs -/

theorem Initial.paired (h : Initial s) : Paired none s := by
  have hnone (c : Client) (sid : Sid) (op : Op) : ¬ s.Waits sid op c := by
    cases c <;> simp [State.Waits, h.workers, h.dispatchers, h.calls]
  refine ⟨by simp [h.sessions], by simp [h.sessions], fun c sid op hw => ?_, fun c sid op hw => ?_⟩
  · exact absurd hw (hnone c sid op)
  · exact absurd hw (hnone c sid op)

theorem Run.paired {s₀ : State} {es : List Event} (h : Run cfg s₀ es s) (h₀ : Initial s₀) :
    Paired none s := by
  induction h with
  | refl => exact h₀.paired
  | step _ hs ih => exact ih.step (step_cases hs)

end

end ScaleQueue
