import ScaleQueue.Pool
import ScaleQueue.Turns

/-!
# The consumers of the pool

A worker of the system does what `Consumer.Start` does in the pool: wherever its loop
stands (`stand`), the messages that it takes in hand and is done with are those of a
consumer (`consumers_simulated`). So once it is stopped, it takes no message in hand any
more, and is done with at most the one it had.
-/

namespace ScaleQueue.Pool

open Locking Simulation

/-! ## A consumer by itself -/

/-- What is seen of a consumer. -/
inductive Hand
  /-- `handle` was called. -/
  | took
  /-- `handle` returned. -/
  | done
  deriving DecidableEq

/-- A message is in hand. -/
def Consumer.busy : Consumer → Bool
  | .handling _ => true
  | _ => false

/-- What a step of a consumer does to the message in hand. -/
def Consumer.hand (c c' : Consumer) : List Hand :=
  if c.busy = c'.busy then [] else if c'.busy then [.took] else [.done]

/-- A consumer, and whether it is stopped. -/
def consumer : Machine (Consumer × Bool) Hand where
  Start s := s = (.top, false)
  Step s o s' := (∃ a clock, s.1.act s.2 false clock a = some s'.1) ∧ s'.2 = s.2 ∧
    o = s.1.hand s'.1 ∨ s' = (s.1, true) ∧ o = []

theorem consumer_act {stopped : Bool} {c c' : Consumer} {o : List Hand} (a : ConsumerAct)
    (h : c.act stopped false 0 a = some c') (ho : o = c.hand c') :
    consumer.Run (c, stopped) o (c', stopped) := .one (.inl ⟨⟨a, 0, h⟩, rfl, ho⟩)

section Steps

variable {stopped : Bool} {n : ℕ}

theorem consumer_handled : consumer.Run (.handling none, stopped) [.done] (.top, stopped) :=
  consumer_act .handled rfl rfl

theorem consumer_resumed :
    consumer.Run (.handling (some n), stopped) [.done] (.recovering n, stopped) :=
  consumer_act .handled rfl rfl

theorem consumer_next :
    consumer.Run (.recovering (n + 1), false) [.took] (.handling (some n), false) :=
  consumer_act .next rfl rfl

theorem consumer_reading : consumer.Run (.recovered, false) [] (.reading, false) :=
  consumer_act .check rfl rfl

theorem consumer_nothing : consumer.Run (.recovered, false) [] (.top, false) :=
  consumer_reading.trans (consumer_act (.read .nothing) rfl rfl)

theorem consumer_received : consumer.Run (.reading, false) [] (.received, false) :=
  consumer_act (.read .message) rfl rfl

theorem consumer_take : consumer.Run (.received, false) [.took] (.handling none, false) :=
  consumer_act .take rfl rfl

theorem consumer_message : consumer.Run (.recovered, false) [.took] (.handling none, false) :=
  consumer_reading.trans (consumer_received.trans consumer_take)

end Steps

/-- What is seen of a stopped consumer is the end of what it has in hand. -/
theorem Consumer.Winds.hand {c c' : Consumer} (h : c.Winds c') :
    c.hand c' = if c.busy then [.done] else [] := by
  cases h <;> rfl

theorem consumer_stopped {c : Consumer} {s : Consumer × Bool} {tr : List Hand}
    (h : consumer.Run (c, true) tr s) :
    s.2 = true ∧ tr ++ (if s.1.busy then [.done] else []) = if c.busy then [.done] else [] := by
  refine h.keeps (I := fun tr s => s.2 = true ∧
    tr ++ (if s.1.busy then [.done] else []) = if c.busy then [.done] else []) ⟨rfl, rfl⟩ ?_
  rintro tr ⟨c₁, stopped⟩ o ⟨c₂, stopped'⟩ ⟨hstop, htr⟩ hstep
  obtain rfl : stopped = true := hstop
  rcases hstep with ⟨⟨a, clock, hact⟩, hsame, rfl⟩ | ⟨heq, rfl⟩
  · have hwinds := Consumer.act_winds hact
    obtain rfl : stopped' = true := hsame
    have hnot : c₂.busy = false := by
      cases hc : c₂ with
      | handling rest => exact absurd hc (hwinds.not_handling rest)
      | _ => rfl
    refine ⟨rfl, ?_⟩
    rw [← htr, hwinds.hand]
    simp [hnot]
  · obtain ⟨rfl, rfl⟩ := Prod.mk.inj heq
    exact ⟨rfl, by simpa using htr⟩

/-! ## The worker of the system -/

/-- Where a worker stands in `Consumer.Start`. -/
def stand (x : Worker) : Consumer :=
  if x.up then
    match x.point, x.phase with
    | .top, .idle => .top
    | .top, _ => .handling none
    | .recovering es, .idle => .recovering es.length
    | .recovering es, _ => .handling (some es.length)
    | .reading, _ => .recovered
  else .ended

/-- Nothing is in hand while the loop reads, or when it has ended. -/
structure Steady (x : Worker) : Prop where
  reading : x.point = .reading → x.phase = .idle
  ended : x.up = false → x.phase = .idle

/-- What the system does to the message in the hand of the worker. -/
def Event.hand (w : WorkerId) : Event → List Hand
  | .delivered w' _ _ => if w' = w then [.took] else []
  | .retained w' _ => if w' = w then [.done] else []
  | .acked w' _ _ _ => if w' = w then [.done] else []
  | _ => []

section Worker

variable {cfg : Config} {s : State} {w : WorkerId} {x x' : Worker} {fx : Effects} {e : Event}

theorem hand_of_worker (h : e.worker? ≠ some w) : Event.hand w e = [] := by
  cases e <;> simp_all [Event.hand, Event.worker?]

/-- A phase is in hand until it is idle. -/
def Phase.busy : Phase → Bool
  | .idle => false
  | _ => true

theorem stand_busy (hx : Steady x) : (stand x).busy = Phase.busy x.phase := by
  obtain ⟨point, phase, cursor, next, stopping, up⟩ := x
  cases up with
  | false =>
    obtain rfl : phase = .idle := hx.ended rfl
    rfl
  | true =>
    cases point with
    | reading =>
      obtain rfl : phase = .idle := hx.reading rfl
      rfl
    | _ => cases phase <;> rfl

/-- While a delivery is in hand, nothing is seen but its end. -/
theorem phase_simulated {p : Phase} (hx : Steady x) (hbusy : Phase.busy x.phase = true) :
    Steady { x with phase := p } ∧
      consumer.Run (stand x, x.stopping) (if Phase.busy p then [] else [.done])
        (stand { x with phase := p }, x.stopping) := by
  obtain ⟨point, phase, cursor, next, stopping, up⟩ := x
  have hup : up = true := by
    by_contra hno
    rw [hx.ended (Bool.eq_false_iff.2 hno)] at hbusy
    cases hbusy
  have hpoint : point ≠ .reading := fun hp => by
    rw [hx.reading hp] at hbusy
    cases hbusy
  subst hup
  refine ⟨⟨fun hp => (hpoint hp).elim, fun hno => by cases hno⟩, ?_⟩
  cases point with
  | top =>
    cases phase with
    | idle => cases hbusy
    | _ => cases p with
      | idle => exact consumer_handled
      | _ => exact .refl
  | recovering es =>
    cases phase with
    | idle => cases hbusy
    | _ => cases p with
      | idle => exact consumer_resumed
      | _ => exact .refl
  | reading => exact absurd rfl hpoint

/-- What an answer ends is seen, and nothing else. -/
theorem told_simulated {sid : Sid} {a : Option Answer} (hx : Steady x)
    (h : x.returned w sid a = some (x', fx)) : Steady x' ∧
      consumer.Run (stand x, x.stopping) (fx.events.flatMap (Event.hand w))
        (stand x', x'.stopping) := by
  obtain ⟨-, -, -, -, p, rfl⟩ := returned_effects h
  have htold := returned_cases h
  have hbusy : Phase.busy x.phase = true := by
    cases htold <;> rename_i hphase <;> simp_all [Phase.busy]
  have hseen : fx.events.flatMap (Event.hand w) = if Phase.busy p then [] else [.done] := by
    cases htold <;> rename_i hp he <;> simp_all [Phase.busy, Event.hand]
  rw [hseen]
  exact phase_simulated hx hbusy

/-- A message is taken in hand, and done with if it is malformed. -/
theorem handle_simulated (cfg : Config) (s : State) (w : WorkerId) (e : Redis.Entry Message)
    (point : Point) (cursor next : ℕ) {c c₀ : Consumer} {rest : Option ℕ}
    (hpoint : point ≠ .reading)
    (hstand : ∀ p, stand ⟨point, p, cursor, next, false, true⟩ =
      if Phase.busy p then .handling rest else c)
    (htook : consumer.Run (c₀, false) [.took] (.handling rest, false))
    (hdone : consumer.Run (.handling rest, false) [.done] (c, false)) :
    Steady (Worker.handle cfg s w ⟨point, .idle, cursor, next, false, true⟩ e).1 ∧
      consumer.Run (c₀, false)
        ((Worker.handle cfg s w ⟨point, .idle, cursor, next, false, true⟩ e).2.events.flatMap
          (Event.hand w))
        (stand (Worker.handle cfg s w ⟨point, .idle, cursor, next, false, true⟩ e).1, false) := by
  unfold Worker.handle
  split
  · refine ⟨⟨fun _ => rfl, fun _ => rfl⟩, ?_⟩
    simpa [Event.hand, hstand, Phase.busy] using htook.trans hdone
  · refine ⟨⟨fun hp => (hpoint hp).elim, fun hf => by cases hf⟩, ?_⟩
    simpa [Event.hand, hstand, Phase.busy] using htook

/-- `handle` does not change what the loop reads. -/
@[simp] theorem handle_stopping (e : Redis.Entry Message) (x : Worker) :
    (x.handle cfg s w e).1.stopping = x.stopping := by
  unfold Worker.handle
  split <;> rfl

theorem loop_simulated {reachable : Bool} (hup : x.up = true)
    (h : x.act cfg s w (.loop reachable) = some (x', fx)) : Steady x' ∧
      consumer.Run (stand x, x.stopping) (fx.events.flatMap (Event.hand w))
        (stand x', x'.stopping) := by
  obtain ⟨point, phase, cursor, next, stopping, up⟩ := x
  obtain rfl : up = true := hup
  simp only [Worker.act] at h
  split at h
  · cases stopping with
    | true =>
      rw [if_pos rfl] at h
      obtain ⟨rfl, rfl⟩ := Prod.mk.inj (Option.some.inj h)
      exact ⟨⟨fun _ => rfl, fun _ => rfl⟩, consumer_act (.loop none) rfl rfl⟩
    | false =>
      rw [if_neg (by simp)] at h
      split_ifs at h
      · obtain ⟨rfl, rfl⟩ := Prod.mk.inj (Option.some.inj h)
        exact ⟨⟨fun _ => rfl, fun _ => rfl⟩, consumer_act (.loop none) rfl rfl⟩
      · split at h
        · obtain ⟨rfl, rfl⟩ := Prod.mk.inj (Option.some.inj h)
          exact ⟨⟨fun _ => rfl, fun _ => rfl⟩, consumer_act (.loop none) rfl rfl⟩
        · rename_i es _ _ _
          obtain ⟨rfl, rfl⟩ := Prod.mk.inj (Option.some.inj h)
          exact ⟨⟨fun _ => rfl, fun _ => rfl⟩, consumer_act (.loop (some es.length)) rfl rfl⟩
      · obtain ⟨rfl, rfl⟩ := Prod.mk.inj (Option.some.inj h)
        exact ⟨⟨fun _ => rfl, fun _ => rfl⟩, consumer_act (.loop none) rfl rfl⟩
  · cases h

theorem recover_simulated (hup : x.up = true) (h : x.act cfg s w .recover = some (x', fx)) :
    Steady x' ∧ consumer.Run (stand x, x.stopping) (fx.events.flatMap (Event.hand w))
      (stand x', x'.stopping) := by
  obtain ⟨point, phase, cursor, next, stopping, up⟩ := x
  obtain rfl : up = true := hup
  simp only [Worker.act] at h
  split at h
  · rename_i batch
    cases batch with
    | nil =>
      obtain ⟨rfl, rfl⟩ := Prod.mk.inj (Option.some.inj h)
      exact ⟨⟨fun _ => rfl, fun _ => rfl⟩, consumer_act .next rfl rfl⟩
    | cons e es =>
      cases stopping with
      | true =>
        obtain ⟨rfl, rfl⟩ := Prod.mk.inj (Option.some.inj h)
        exact ⟨⟨fun _ => rfl, fun _ => rfl⟩, consumer_act .next rfl rfl⟩
      | false =>
        obtain ⟨hsteady, hrun⟩ := handle_simulated cfg s w e (.recovering es) cursor next
          (by simp) (fun p => by cases p <;> rfl) consumer_next consumer_resumed
        obtain rfl := congrArg Prod.fst (Option.some.inj h)
        obtain rfl := congrArg Prod.snd (Option.some.inj h)
        exact ⟨hsteady, by rwa [handle_stopping]⟩
  · cases h

theorem read_simulated {reachable : Bool} (hup : x.up = true)
    (h : x.act cfg s w (.read reachable) = some (x', fx)) : Steady x' ∧
      consumer.Run (stand x, x.stopping) (fx.events.flatMap (Event.hand w))
        (stand x', x'.stopping) := by
  obtain ⟨point, phase, cursor, next, stopping, up⟩ := x
  obtain rfl : up = true := hup
  have hend : consumer.Run (.recovered, true) [] (.ended, true) := consumer_act .check rfl rfl
  simp only [Worker.act] at h
  split at h
  · split at h
    · cases stopping with
      | true =>
        obtain ⟨rfl, rfl⟩ := Prod.mk.inj (Option.some.inj h)
        exact ⟨⟨fun _ => rfl, fun _ => rfl⟩, hend⟩
      | false =>
        obtain ⟨rfl, rfl⟩ := Prod.mk.inj (Option.some.inj h)
        exact ⟨⟨fun _ => rfl, fun _ => rfl⟩, consumer_nothing⟩
    · cases stopping with
      | true =>
        obtain ⟨rfl, rfl⟩ := Prod.mk.inj (Option.some.inj h)
        exact ⟨⟨fun _ => rfl, fun _ => rfl⟩, hend⟩
      | false =>
        rw [if_neg (by simp)] at h
        split at h
        · obtain ⟨rfl, rfl⟩ := Prod.mk.inj (Option.some.inj h)
          exact ⟨⟨fun _ => rfl, fun _ => rfl⟩, consumer_nothing⟩
        · rename_i e _
          obtain ⟨hsteady, hrun⟩ := handle_simulated cfg s w e .top cursor next (by simp)
            (fun p => by cases p <;> rfl) consumer_message consumer_handled
          obtain rfl := congrArg Prod.fst (Option.some.inj h)
          obtain rfl := congrArg Prod.snd (Option.some.inj h)
          exact ⟨hsteady, by rwa [handle_stopping]⟩
  · cases h

/-- Every step of a worker but a crash. -/
theorem act_simulated {a : WorkerAct} (hx : Steady x) (hup : x.up = true)
    (h : x.act cfg s w a = some (x', fx)) (hno : a ≠ .crash) : Steady x' ∧
      consumer.Run (stand x, x.stopping) (fx.events.flatMap (Event.hand w))
        (stand x', x'.stopping) := by
  -- The steps that go on with the delivery in hand.
  have going {p : Phase} (hbusy : Phase.busy x.phase = true)
      (hseen : fx.events.flatMap (Event.hand w) = if Phase.busy p then [] else [.done])
      (hp : x' = { x with phase := p }) : Steady x' ∧
        consumer.Run (stand x, x.stopping) (fx.events.flatMap (Event.hand w))
          (stand x', x'.stopping) := by
    rw [hp, hseen]
    exact phase_simulated hx hbusy
  have abandoned {h : Handle} (hh : x.phase.handle? = some h) :
      Steady (x.abandon w h).1 ∧ consumer.Run (stand x, x.stopping)
        ((x.abandon w h).2.events.flatMap (Event.hand w))
        (stand (x.abandon w h).1, (x.abandon w h).1.stopping) := by
    have hbusy : Phase.busy x.phase = true ∧ Phase.busy x.phase.cancel = true := by
      cases hp : x.phase <;> simp_all [Phase.busy, Phase.cancel, Phase.handle?]
    have := phase_simulated (p := x.phase.cancel) hx hbusy.1
    rwa [hbusy.2] at this
  cases a with
  | loop => exact loop_simulated hup h
  | recover => exact recover_simulated hup h
  | read => exact read_simulated hup h
  | stop =>
    obtain ⟨rfl, rfl⟩ := Prod.mk.inj (Option.some.inj h)
    exact ⟨⟨hx.reading, hx.ended⟩, .one (.inr ⟨rfl, rfl⟩)⟩
  | crash => exact absurd rfl hno
  | tick =>
    simp only [Worker.act] at h
    split at h
    · split_ifs at h
      obtain ⟨rfl, rfl⟩ := Prod.mk.inj (Option.some.inj h)
      exact going (by simp [*, Phase.busy]) rfl rfl
    · cases h
  | result r =>
    simp only [Worker.act] at h
    split at h
    · split_ifs at h <;> obtain ⟨rfl, rfl⟩ := Prod.mk.inj (Option.some.inj h)
      · exact going (by simp [*, Phase.busy]) (by simp [Event.hand, Phase.busy]) rfl
      · exact going (by simp [*, Phase.busy]) (by simp [Event.hand, Phase.busy]) rfl
    · cases h
  | settle jitter =>
    simp only [Worker.act, Worker.retain] at h
    split at h
    · obtain ⟨rfl, rfl⟩ := Prod.mk.inj (Option.some.inj h)
      exact going (by simp [*, Phase.busy]) (by simp [Event.hand, Phase.busy]) rfl
    · split_ifs at h
      · obtain ⟨rfl, rfl⟩ := Prod.mk.inj (Option.some.inj h)
        exact going (by simp [*, Phase.busy]) (by simp [Event.hand, Phase.busy]) rfl
      · split at h
        · cases h
        · obtain ⟨rfl, rfl⟩ := Prod.mk.inj (Option.some.inj h)
          exact going (by simp [*, Phase.busy]) rfl rfl
    · cases h
  | ack applied =>
    simp only [Worker.act] at h
    split at h
    · obtain ⟨rfl, rfl⟩ := Prod.mk.inj (Option.some.inj h)
      exact going (by simp [*, Phase.busy]) (by simp [Event.hand, Phase.busy]) rfl
    · cases h
  | expire =>
    simp only [Worker.act] at h
    split at h
    · split_ifs at h
      obtain ⟨rfl, rfl⟩ := Prod.mk.inj (Option.some.inj h)
      exact abandoned ‹_›
    · cases h
  | cancel =>
    simp only [Worker.act] at h
    split at h
    · split_ifs at h
      obtain ⟨rfl, rfl⟩ := Prod.mk.inj (Option.some.inj h)
      exact abandoned ‹_›
    · cases h

theorem delivered_simulated {sid : Sid} {b : Option Answer} {s' : State}
    {es : List ScaleQueue.Event} (h : Delivered cfg s sid b s' es) (hw : s.workers w = some x)
    (hx : Steady x) : ∃ x', s'.workers w = some x' ∧ Steady x' ∧
      consumer.Run (stand x, x.stopping) (es.flatMap (Event.hand w)) (stand x', x'.stopping) := by
  cases h with
  | nobody => exact ⟨x, hw, hx, .refl⟩
  | @worker w' y y' fx _ hw' hy =>
    rcases eq_or_ne w w' with rfl | hne
    · obtain rfl : x = y := Option.some.inj (hw.symm.trans hw')
      obtain ⟨hsteady, hrun⟩ := told_simulated hx hy
      exact ⟨y', Function.update_self _ _ _, hsteady, hrun⟩
    · refine ⟨x, (Function.update_of_ne hne _ _).trans hw, hx, ?_⟩
      rw [List.flatMap_eq_nil_iff.2 fun e he => hand_of_worker ?_]
      · exact .refl
      · rw [(returned_cases hy).worker e he]
        exact fun heq => hne (Option.some.inj heq).symm
  | dispatcher => exact ⟨x, hw, hx, .refl⟩
  | call _ _ _ hp =>
    refine ⟨x, hw, hx, ?_⟩
    rw [List.flatMap_eq_nil_iff.2 fun e he => hand_of_worker (by simp [proceed_worker hp e he])]
    exact .refl

theorem stepped_simulated {a : ScaleQueue.Action} {s' : State} {es : List ScaleQueue.Event}
    (h : Stepped cfg s a s' es) (hno : a ≠ .worker w .crash) (hw : s.workers w = some x)
    (hx : Steady x) : ∃ x', s'.workers w = some x' ∧ Steady x' ∧
      consumer.Run (stand x, x.stopping) (es.flatMap (Event.hand w)) (stand x', x'.stopping) := by
  cases h with
  | close _ hd =>
    obtain ⟨x', hw', hx', hrun⟩ := delivered_simulated hd hw hx
    exact ⟨x', hw', hx', by simpa [Event.hand] using hrun⟩
  | giveUp _ hd => exact delivered_simulated hd hw hx
  | @startWorker w' hnone =>
    have hne : w ≠ w' := fun heq => by simp [← heq, hw] at hnone
    exact ⟨x, (Function.update_of_ne hne _ _).trans hw, hx, .refl⟩
  | @worker w' b y y' fx hw' hup hy =>
    rcases eq_or_ne w w' with rfl | hne
    · obtain rfl : x = y := Option.some.inj (hw.symm.trans hw')
      obtain ⟨hsteady, hrun⟩ := act_simulated hx hup hy fun hb => hno (by rw [hb])
      exact ⟨y', Function.update_self _ _ _, hsteady, hrun⟩
    · refine ⟨x, (Function.update_of_ne hne _ _).trans hw, hx, ?_⟩
      rw [List.flatMap_eq_nil_iff.2 fun e he => hand_of_worker ?_]
      · exact .refl
      · rw [(ScaleQueue.act_cases hy).worker e he]
        exact fun heq => hne (Option.some.inj heq).symm
  | _ => exact ⟨x, hw, hx, .refl⟩

end Worker

/-- The system, as far as worker `w` is seen in it, from when it starts. -/
def worker (cfg : Config) (w : WorkerId) : Machine State Hand where
  Start s := ∃ now, s.workers w = some (.start now)
  Step s o s' := ∃ a es, s.step cfg a = some (s', es) ∧ a ≠ .worker w .crash ∧
    o = es.flatMap (Event.hand w)

/-- The worker in the system stands where the consumer does. -/
def Follows (w : WorkerId) (s : State) (c : Consumer × Bool) : Prop :=
  ∃ x, s.workers w = some x ∧ Steady x ∧ c = (stand x, x.stopping)

theorem consumers_simulated (cfg : Config) (w : WorkerId) :
    Simulates consumer (worker cfg w) (Follows w) where
  start s h := by
    obtain ⟨now, hw⟩ := h
    exact ⟨_, rfl, _, hw, ⟨fun _ => rfl, fun _ => rfl⟩, rfl⟩
  step s c o s' h hs := by
    obtain ⟨x, hw, hx, rfl⟩ := h
    obtain ⟨a, es, hs, hno, rfl⟩ := hs
    obtain ⟨x', hw', hx', hrun⟩ := stepped_simulated (step_cases hs) hno hw hx
    exact ⟨_, hrun, x', hw', hx', rfl⟩

/-- In every run of the system, as long as it does not crash, a worker takes messages in
    hand, and is done with them, as `Consumer.Start` does. Once it is stopped, what is left
    is the end of the one it has in hand. -/
theorem workers_follow_start {cfg : Config} {w : WorkerId} {s₀ s s' : State}
    {tr tr' : List Hand} (h₀ : (worker cfg w).Start s₀) (h : (worker cfg w).Run s₀ tr s)
    (h' : (worker cfg w).Run s tr' s') :
    ∃ x x', s.workers w = some x ∧ s'.workers w = some x' ∧
      consumer.Run (.top, false) tr (stand x, x.stopping) ∧
      (x.stopping = true → x'.stopping = true ∧
        tr' ++ (if x'.phase.handle?.isSome then [.done] else []) =
          if x.phase.handle?.isSome then [.done] else []) := by
  have hsim := consumers_simulated cfg w
  obtain ⟨c, hc, hR₀⟩ := hsim.start s₀ h₀
  obtain rfl : c = (.top, false) := hc
  obtain ⟨c, hrun, hR⟩ := hsim.run hR₀ h
  obtain ⟨c', hrun', hR'⟩ := hsim.run hR h'
  obtain ⟨x, hw, hx, rfl⟩ := hR
  obtain ⟨x', hw', hx', rfl⟩ := hR'
  refine ⟨x, x', hw, hw', hrun, fun hstop => ?_⟩
  rw [hstop] at hrun'
  obtain ⟨hstop', hseen⟩ := consumer_stopped hrun'
  have hbusy (p : Phase) : Phase.busy p = p.handle?.isSome := by cases p <;> rfl
  rw [stand_busy hx, stand_busy hx', hbusy, hbusy] at hseen
  exact ⟨hstop', hseen⟩

theorem worker_play (cfg : Config) (w : WorkerId) (s : State) (acts : List ScaleQueue.Action)
    (h : ∀ a ∈ acts, a ≠ .worker w .crash) :
    (worker cfg w).Run s ((s.play cfg acts).2.flatMap (Event.hand w)) (s.play cfg acts).1 := by
  induction acts generalizing s with
  | nil => exact .refl
  | cons a acts ih =>
    rw [State.play]
    split
    · exact ih s fun b hb => h b (List.mem_cons_of_mem _ hb)
    · rename_i s' es hs
      have hone : (worker cfg w).Run s (es.flatMap (Event.hand w)) s' :=
        .one ⟨a, es, hs, h a List.mem_cons_self, rfl⟩
      rw [List.flatMap_append]
      exact hone.trans (ih s' fun b hb => h b (List.mem_cons_of_mem _ hb))

/-- A first job is created, and a worker started. -/
def firstWorker : State :=
  (State.after (creating 0 0 0 firstInput firstJob ++ [.startWorker "w"])).1

/-- The worker is stopped in its first attempt. -/
def firstStop : State :=
  (firstWorker.play (.defaults id) ([.startDispatcher 0] ++ dispatching 0 2 0 ++
    claiming "w" 3 0 ++ [.worker "w" .stop])).1

/-- After the stop, the worker ends its first attempt. -/
theorem workers_follow_start_first :
    let run := firstStop.play (.defaults id) (finishing "w" 4 0 .ok)
    ∃ x', run.1.workers "w" = some x' ∧ x'.stopping = true ∧
      run.2.flatMap (Event.hand "w") ++ (if x'.phase.handle?.isSome then [.done] else []) =
        [.done] := by
  intro run
  have h₀ : (worker (.defaults id) "w").Start firstWorker := ⟨0, rfl⟩
  have h : (worker (.defaults id) "w").Run firstWorker _ firstStop :=
    worker_play _ _ _ _ (by simp [dispatching, claiming])
  obtain ⟨x, x', hw, hw', -, hstop⟩ := workers_follow_start h₀ h
    (worker_play (.defaults id) "w" firstStop (finishing "w" 4 0 .ok) (by simp [finishing]))
  have hx : (firstStop.workers "w").map (fun y => (y.stopping, y.phase.handle?.isSome)) =
      some (true, true) := rfl
  rw [hw, Option.map_some] at hx
  obtain ⟨hxstop, hbusy⟩ := Prod.mk.inj (Option.some.inj hx)
  obtain ⟨hx', hseen⟩ := hstop hxstop
  exact ⟨x', hw', hx', by rwa [if_pos hbusy] at hseen⟩

end ScaleQueue.Pool
