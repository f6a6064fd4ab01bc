import ScaleQueue.Progress

/-!
# Locks are released

The workers need nobody else to release what they hold: the time of whoever holds a lock
runs out, its client gives it up, and its session is closed. `Eases` are the steps that
only release locks, and `freed` says that they release every lock that no request of the
API holds.
-/

namespace ScaleQueue

open Locking

/-- The worker processes go on from `s` to `s'`, and locks are only released. -/
structure Eases (cfg : Config) (s s' : State) : Prop where
  onward : ∃ es, Onward cfg s es s'
  locks : ∀ k sid, s'.mysql.locks k = some sid → s.mysql.locks k = some sid

/-- Neither the tables nor the stream changes in this. -/
structure Rests (cfg : Config) (s s' : State) : Prop extends Eases cfg s s' where
  store : s'.mysql.store = s.mysql.store
  stream : s'.stream = s.stream
  clock_le : s.mysql.clock ≤ s'.mysql.clock

section Eases

variable {cfg : Config} {s s' s'' : State} {id : JobId} {es : List Event} {a : Action} {sid : Sid}
  {w : WorkerId} {x x' : Worker} {fx : Effects} {h : Handle}

theorem Eases.trans (h : Eases cfg s s') (h' : Eases cfg s' s'') : Eases cfg s s'' := by
  obtain ⟨es, hes⟩ := h.onward
  obtain ⟨es', hes'⟩ := h'.onward
  exact ⟨⟨_, hes.trans hes'⟩, fun k sid hk => h.locks k sid (h'.locks k sid hk)⟩

theorem Eases.refl (cfg : Config) (s : State) : Eases cfg s s := ⟨⟨[], .refl⟩, fun _ _ hk => hk⟩

theorem Rests.trans (h : Rests cfg s s') (h' : Rests cfg s' s'') : Rests cfg s s'' :=
  ⟨h.toEases.trans h'.toEases, h'.store.trans h.store, h'.stream.trans h.stream,
    Nat.le_trans h.clock_le h'.clock_le⟩

theorem Rests.refl (cfg : Config) (s : State) : Rests cfg s s :=
  ⟨.refl cfg s, rfl, rfl, Nat.le_refl _⟩

theorem Eases.one (hw : Working s a) (hs : s.step cfg a = some (s', es))
    (hne : ∀ sid now, a ≠ .exec sid now) : Eases cfg s s' := by
  refine ⟨⟨es, .one hw hs⟩, fun k sid hk => ?_⟩
  rcases (step_cases hs).locks hk with hk | ⟨now, rfl⟩
  · exact hk
  · exact absurd rfl (hne sid now)

theorem Onward.reached (h : Onward cfg s es s') (hr : s.Reached cfg id) : s'.Reached cfg id := by
  obtain ⟨s₀, es₀, h₀, hnew, hrun⟩ := hr
  exact ⟨s₀, _, h₀, hnew, hrun.trans h.run⟩

theorem Eases.reached (h : Eases cfg s s') (hr : s.Reached cfg id) : s'.Reached cfg id := by
  obtain ⟨es, hes⟩ := h.onward
  exact hes.reached hr

theorem Eases.heals (h : Eases cfg s s') (hs : s'.Heals cfg id) : s.Heals cfg id := by
  obtain ⟨es, hes⟩ := h.onward
  exact hes.heals hs

theorem Rests.advance (cfg : Config) (s : State) (t : ℕ) :
    Rests cfg s { s with mysql := s.mysql.advance t } :=
  ⟨.one (.advance t) rfl (by simp), rfl, rfl, Nat.le_add_right _ _⟩

/-- A step of a worker. -/
theorem Eases.act (hw : s.workers w = some x) (hup : x.up = true) {b : WorkerAct}
    (hx : x.act cfg s w b = some (x', fx)) (hb : b.works = true) :
    Eases cfg s ((s.affect cfg fx).setWorker w x') :=
  .one (.worker w hb) (State.step_worker hw hup hx) (by simp)

theorem Rests.act (hw : s.workers w = some x) (hup : x.up = true) {b : WorkerAct}
    (hx : x.act cfg s w b = some (x', fx)) (hb : b.works = true) (hfx : fx.stream = none) :
    Rests cfg s ((s.affect cfg fx).setWorker w x') := by
  have hkeep : (s.affect cfg fx).mysql.store = s.mysql.store ∧
    (s.affect cfg fx).mysql.clock = s.mysql.clock ∧ _ := affect_store fx
  refine ⟨.act hw hup hx hb, hkeep.1, ?_, Nat.le_of_eq hkeep.2.1.symm⟩
  show fx.stream.getD s.stream = s.stream
  rw [hfx]
  rfl

/-! ## A worker runs out of time -/

/-- The job timeout cancels what a worker has in hand. -/
theorem expired (cfg : Config) (hw : s.workers w = some x) (hup : x.up = true)
    (hh : x.phase.handle? = some h) : ∃ s', Rests cfg s s' ∧
      s'.workers w = some { x with phase := x.phase.cancel } := by
  have hlate : h.deadline ≤ (s.mysql.advance h.deadline).clock := Nat.le_add_left _ _
  have hx : x.act cfg { s with mysql := s.mysql.advance h.deadline } w .expire =
      some (x.abandon w h) := by
    simp only [Worker.act, hh]
    exact if_pos hlate
  exact ⟨_, (Rests.advance cfg s h.deadline).trans (.act hw hup hx rfl rfl),
    Function.update_self _ _ _⟩

theorem givenUp_rests {y : Conn} (h : Eases cfg s s')
    (hd : Delivered cfg (s.forsake sid y) sid none s' es) : Rests cfg s s' := by
  have hstore : (s.forsake sid y).mysql.store = s.mysql.store ∧
      (s.forsake sid y).mysql.clock = s.mysql.clock := by
    unfold State.forsake
    split <;> exact ⟨rfl, rfl⟩
  exact ⟨h, hd.mysql_eq.1.trans hstore.1, hd.stream,
    Nat.le_of_eq (hd.mysql_eq.2.1.trans hstore.2).symm⟩

/-- What a worker waits for, with its context cancelled, it gives up. -/
theorem givenUp (hr : s.Reached cfg id) (hw : s.workers w = some x)
    (hh : x.phase.handle? = some h) (hdone : h.done = true) {op : Op}
    (hwait : x.phase.Waits w sid op) : ∃ s' x' fx, Rests cfg s s' ∧
      x.returned w sid none = some (x', fx) ∧ s'.workers w = some x' := by
  have hp := hr.paired
  obtain ⟨y, hy, -⟩ := (hp.waited (.worker w) sid op ⟨x, hw, hwait⟩).resolve_left (by simp)
  have hparty := (hp.party (.worker w) sid op ⟨x, hw, hwait⟩).1
  obtain ⟨s', es, hs⟩ : ∃ s' es, s.step cfg (.giveUp sid) = some (s', es) := by
    simp only [State.step, hy, Option.map_some]
    exact ⟨_, _, rfl⟩
  have heases : Eases cfg s s' := .one (.giveUp (.delivery hparty hw hh hdone)) hs (by simp)
  cases step_cases hs with
  | @giveUp _ z _ _ hz hd =>
    have hrests : Rests cfg s s' := givenUp_rests heases hd
    cases hd with
    | nobody hnone =>
      refine absurd (hnone w x ?_ hw) (hwait.returned none)
      obtain ⟨party, n⟩ := sid
      cases party <;> simp_all [Party.client]
    | @worker v y' x' fx hv hy' hx =>
      obtain rfl : w = v := by
        rcases hv with hv | hv <;> simpa [hv, Party.client] using hparty.symm
      obtain rfl : x = y' := Option.some.inj (hw.symm.trans hy')
      exact ⟨_, x', fx, hrests, hx, Function.update_self _ _ _⟩
    | dispatcher hv => simp [hv, Party.client] at hparty
    | call hv => simp [hv, Party.client] at hparty

/-- What a worker has read, it gives up. -/
theorem dismissed (hr : s.Reached cfg id) (hw : s.workers w = some x) (hup : x.up = true)
    (hx : x.phase = .claiming h sid) :
    ∃ s', Rests cfg s s' ∧ s'.workers w = some { x with phase := .idle } := by
  obtain ⟨s₁, hs₁, hw₁⟩ := expired cfg hw hup (by rw [hx]; rfl)
  rw [hx] at hw₁
  obtain ⟨s₂, x₂, fx, hs₂, hret, hw₂⟩ := givenUp (hs₁.reached hr) hw₁ rfl rfl .claim
  simp only [Phase.cancel, Worker.returned, Worker.claimReturned, Worker.retain, if_true] at hret
  obtain ⟨rfl, -⟩ := Prod.mk.inj (Option.some.inj hret)
  exact ⟨s₂, hs₁.trans hs₂, hw₂⟩

/-- An attempt whose context is cancelled ends once its handler has returned. -/
theorem attemptEnds (hr : s.Reached cfg id) (hw : s.workers w = some x) (hup : x.up = true)
    {j : Job} {r : Result} {beat : Beat} (hx : x.phase = .running h j (some r) beat)
    (hdone : h.done = true) :
    ∃ s' x', Eases cfg s s' ∧ s'.workers w = some x' ∧ x'.phase = .idle := by
  have hsettle {s : State} {x : Worker} (hw : s.workers w = some x) (hup : x.up = true)
      (hx : x.act cfg s w (.settle 0) = some (x.retain w h)) :
      ∃ s' x', Eases cfg s s' ∧ s'.workers w = some x' ∧ x'.phase = .idle :=
    ⟨_, _, .act hw hup hx rfl, Function.update_self _ _ _, rfl⟩
  cases beat with
  | waiting =>
    refine hsettle hw hup ?_
    simp only [Worker.act, hx, if_pos hdone]
  | renewing sid =>
    -- The heartbeat waits for its renewal.
    have hwait : x.phase.Waits w sid (.renew j) := hx ▸ .renew
    obtain ⟨s₁, x₁, fx, hs₁, hret, hw₁⟩ := givenUp hr hw (by rw [hx]; rfl) hdone hwait
    simp only [Worker.returned, hx, Worker.renewReturned, if_true] at hret
    obtain ⟨rfl, -⟩ := Prod.mk.inj (Option.some.inj hret)
    obtain ⟨s', x', hs', hend⟩ := hsettle hw₁ hup rfl
    exact ⟨s', x', hs₁.toEases.trans hs', hend⟩
  | failed =>
    refine hsettle hw hup ?_
    simp only [Worker.act, hx]

/-- A worker can always come to have nothing in hand. -/
theorem calmed (hr : s.Reached cfg id) (hw : s.workers w = some x) (hup : x.up = true) :
    ∃ s' x', Eases cfg s s' ∧ s'.workers w = some x' ∧ x'.phase = .idle := by
  cases hx : x.phase with
  | idle => exact ⟨s, x, .refl cfg s, hw, hx⟩
  | claiming h sid =>
    obtain ⟨s', hs', hw'⟩ := dismissed hr hw hup hx
    exact ⟨s', _, hs'.toEases, hw', rfl⟩
  | running h j result beat =>
    -- Its time runs out, and its handler returns.
    obtain ⟨s₁, hs₁, hw₁⟩ := expired cfg hw hup (by rw [hx]; rfl)
    rw [hx] at hw₁
    have hr₁ := hs₁.reached hr
    cases result with
    | none =>
      have hact : Eases cfg s₁ _ := .act hw₁ hup (b := .result .ok) rfl rfl
      obtain ⟨s', x', hs', hend⟩ := attemptEnds (hact.reached hr₁) (Function.update_self _ _ _) hup
        rfl rfl
      exact ⟨s', x', (hs₁.toEases.trans hact).trans hs', hend⟩
    | some r =>
      obtain ⟨s', x', hs', hend⟩ := attemptEnds hr₁ hw₁ hup rfl rfl
      exact ⟨s', x', hs₁.toEases.trans hs', hend⟩
  | finishing h j sid =>
    obtain ⟨s₁, hs₁, hw₁⟩ := expired cfg hw hup (by rw [hx]; rfl)
    rw [hx] at hw₁
    have hwait : Phase.Waits w (.finishing h.cancel j sid) sid (.finish j .completed "" 0) :=
      .finish
    obtain ⟨s₂, x₂, fx, hs₂, hret, hw₂⟩ := givenUp (hs₁.reached hr) hw₁ rfl rfl hwait
    simp only [Phase.cancel, Worker.returned, Worker.finishReturned, Worker.retain, if_true,
      Handle.cancel] at hret
    obtain ⟨rfl, -⟩ := Prod.mk.inj (Option.some.inj hret)
    exact ⟨s₂, _, (hs₁.trans hs₂).toEases, hw₂, rfl⟩
  | acking h j =>
    obtain ⟨fx, hact⟩ : ∃ fx, x.act cfg s w (.ack true) = some ({ x with phase := .idle }, fx) := by
      simp only [Worker.act, hx]
      exact ⟨_, rfl⟩
    exact ⟨_, _, .act hw hup hact rfl, Function.update_self _ _ _, rfl⟩

/-! ## A dispatcher runs out of time -/

/-- A call of `Dispatch` is given up after five seconds. -/
theorem idled (hr : s.Reached cfg id) {d : ℕ} {y : Dispatcher} (hd : s.dispatchers d = some y) :
    ∃ s', Rests cfg s s' ∧ s'.workers = s.workers ∧
      s'.dispatchers d = some { y with session := none } := by
  cases hy : y.session with
  | none => exact ⟨s, .refl cfg s, rfl, by rw [hd, ← hy]⟩
  | some sid =>
    have hp := hr.paired
    have hwait : s.Waits sid .dispatch (.dispatcher d) := ⟨rfl, y, hd, hy⟩
    obtain ⟨z, hz, -⟩ := (hp.waited _ sid _ hwait).resolve_left (by simp)
    have hclient := (hp.party _ sid _ hwait).1
    have hparty : sid.party = .dispatcher d := by
      obtain ⟨party, n⟩ := sid
      cases party <;> simp_all [Party.client]
    -- The context of the call is over at this time.
    have h₁ := Rests.advance cfg s (z.began + dispatchTimeout)
    generalize hs₁ : { s with mysql := s.mysql.advance (z.began + dispatchTimeout) } = s₁ at h₁
    have hz₁ : s₁.mysql.sessions sid = some z := hs₁ ▸ hz
    have hd₁ : s₁.dispatchers d = some y := hs₁ ▸ hd
    have hover : z.began + dispatchTimeout ≤ s₁.mysql.clock := hs₁ ▸ Nat.le_add_left _ _
    obtain ⟨s', es, hs⟩ : ∃ s' es, s₁.step cfg (.giveUp sid) = some (s', es) := by
      simp only [State.step, hz₁, Option.map_some]
      exact ⟨_, _, rfl⟩
    have heases : Eases cfg s₁ s' := .one (.giveUp (.dispatch hparty hz₁ hover)) hs (by simp)
    cases step_cases hs with
    | @giveUp _ u _ _ hu hdel =>
      have hrests : Rests cfg s₁ s' := givenUp_rests heases hdel
      have hworkers : s₁.workers = s.workers := by rw [← hs₁]
      cases hdel with
      | nobody _ hnone => exact absurd hy (hnone d y hparty hd₁)
      | worker hv => simp [hparty] at hv
      | @dispatcher e y' he hy' _ =>
        obtain rfl : d = e := by simpa [hparty] using he
        obtain rfl : y = y' := Option.some.inj (hd₁.symm.trans hy')
        refine ⟨_, h₁.trans hrests, hworkers, Function.update_self _ _ _⟩
      | call hv => simp [hparty] at hv

/-! ## A lock is released -/

variable {k : Key}

theorem close_step (cfg : Config) {how : Closing} {db : MySQL} {c : Closed Answer Op}
    (hc : s.mysql.close sid how = some (db, c)) : ∃ s' es,
      s.step cfg (.close sid how) = some (s', .closed sid c :: es) ∧
      s'.mysql.store = db.store ∧ s'.mysql.locks = db.locks := by
  have hd : Delivered cfg { s with mysql := db } sid (answerOf c) _ _ := deliver_cases sid _
  refine ⟨_, (State.deliver cfg { s with mysql := db } sid (answerOf c)).2, ?_, hd.mysql_eq.1,
    hd.mysql_eq.2.2⟩
  simp only [State.step, hc, Option.map_some]

theorem closed_eases {how : Closing} {t : Tables} {c : Closed Answer Op}
    (hw : Working s (.close sid how)) (hc : s.mysql.close sid how = some (s.mysql.drop sid t, c)) :
    ∃ s', Eases cfg s s' ∧ ∀ k, s.mysql.locks k = some sid → s'.mysql.locks k = none := by
  obtain ⟨s', es, hs, -, hlocks⟩ := close_step cfg hc
  refine ⟨s', .one hw hs (by simp), fun k hk => ?_⟩
  rw [hlocks]
  exact if_pos hk

/-- A session that nobody waits for in a transaction can be closed. -/
theorem released (hr : s.Reached cfg id) (hk : s.mysql.locks k = some sid) (hin : sid.inner)
    (hleft : ∀ y, s.mysql.sessions sid = some y → y.op.autocommit = false → y.attended = false) :
    ∃ s', Eases cfg s s' ∧ s'.mysql.locks k = none := by
  obtain ⟨y, hy⟩ := Option.isSome_iff_exists.1 (hr.kept.isolated.locked k sid hk)
  suffices h : ∃ how t c, Working s (.close sid how) ∧
      s.mysql.close sid how = some (s.mysql.drop sid t, c) by
    obtain ⟨how, t, c, hw, hc⟩ := h
    obtain ⟨s', hs', hfree⟩ := closed_eases hw hc
    exact ⟨s', hs', hfree k hk⟩
  cases hauto : y.op.autocommit with
  | false =>
    -- Its client has left, so MySQL rolls it back.
    refine ⟨.fail, s.mysql.store, .failed y.op, .rollback hin hy (hleft y hy hauto), ?_⟩
    simp only [Server.close, hy]
  | true =>
    -- It holds a lock only after its one statement has run.
    rcases hr.brief sid y hy hauto with ⟨-, hnone⟩ | hend
    · exact absurd hk (hnone k)
    · cases hrest : y.rest with
      | commit r =>
        refine ⟨.commit, applyAll s.mysql.store y.writes, .committed y.op r, .commit hin, ?_⟩
        simp only [Server.close, hy, hrest]
      | abort r =>
        refine ⟨.abort, s.mysql.store, .aborted y.op r, .abort hin, ?_⟩
        simp only [Server.close, hy, hrest]
      | _ => rw [hrest] at hend; exact hend.elim

/-- The client of a session of the workers can come to wait for no transaction. -/
theorem unwaited (hr : s.Reached cfg id) (hin : sid.inner) : ∃ s', Eases cfg s s' ∧
    ∀ op, op.autocommit = false → ¬ s'.Waits sid op sid.party.client := by
  cases hc : sid.party.client with
  | worker v =>
    have hidle {s : State} {x : Worker} (hx : s.workers v = some x) (hp : x.phase = .idle)
        (op : Op) :
        ¬ s.Waits sid op (.worker v) := by
      rw [worker_waits hx, hp]
      exact nofun
    cases hx : s.workers v with
    | none =>
      refine ⟨s, .refl cfg s, fun op _ => ?_⟩
      rintro ⟨x, hx', -⟩
      rw [hx] at hx'
      cases hx'
    | some x =>
      cases hup : x.up with
      | false => exact ⟨s, .refl cfg s, fun op _ => hidle hx (hr.awake v x hx hup) op⟩
      | true =>
        obtain ⟨s', x', hs', hx', hp⟩ := calmed hr hx hup
        exact ⟨s', hs', fun op _ => hidle hx' hp op⟩
  | dispatcher d =>
    cases hy : s.dispatchers d with
    | none =>
      refine ⟨s, .refl cfg s, fun op _ => ?_⟩
      rintro ⟨-, y, hy', -⟩
      rw [hy] at hy'
      cases hy'
    | some y =>
      obtain ⟨s', hs', -, hy'⟩ := idled hr hy
      refine ⟨s', hs'.toEases, fun op _ => ?_⟩
      rintro ⟨-, z, hz, hsession⟩
      obtain rfl := Option.some.inj (hy'.symm.trans hz)
      cases hsession
  | call c =>
    obtain ⟨party, n⟩ := sid
    cases party <;> simp [Party.client] at hc
    exact absurd rfl (hin _)

/-- A lock that no request of the API holds can be released. -/
theorem freed (hr : s.Reached cfg id) (hin : ∀ sid, s.mysql.locks k = some sid → sid.inner) :
    ∃ s', Eases cfg s s' ∧ s'.mysql.locks k = none := by
  cases hk : s.mysql.locks k with
  | none => exact ⟨s, .refl cfg s, hk⟩
  | some sid =>
    obtain ⟨s₁, hs₁, hnobody⟩ := unwaited hr (hin sid hk)
    cases hk₁ : s₁.mysql.locks k with
    | none => exact ⟨s₁, hs₁, hk₁⟩
    | some sid' =>
      obtain rfl : sid = sid' := Option.some.inj (hk.symm.trans (hs₁.locks k sid' hk₁))
      have hr₁ := hs₁.reached hr
      obtain ⟨s₂, hs₂, hk₂⟩ := released hr₁ hk₁ (hin sid hk) fun y hy hauto => by
        cases hatt : y.attended with
        | false => rfl
        | true => exact absurd (hr₁.paired.attended sid y hy hatt hauto).1 (hnobody _ hauto)
      exact ⟨s₂, hs₁.trans hs₂, hk₂⟩

end Eases

end ScaleQueue
