import Mathlib.Algebra.BigOperators.Group.List.Basic
import Mathlib.Algebra.GroupWithZero.Nat
import Mathlib.Algebra.Order.Group.Nat
import ScaleQueue.Simulation

/-!
# The pool

`worker.Run` starts the consumers one by one, each after its group was made, then the
dispatcher, and waits for all of them. A watcher cancels the execution of the deliveries
in hand once the shutdown timeout has passed since the stop. All of these are goroutines
that take steps in any order (`Pool.act`).

Deliveries are not cut short: before `Run` returns, their execution is only cancelled
when the shutdown timeout has passed (`executions_last`). And after a stop `Run` cannot
go on or get stuck: no delivery is taken in hand any more, and once those in hand have
been handled a few more steps are left, at whose end everything has ended
(`shutdown_completes`).
-/

namespace ScaleQueue

open Simulation

namespace Pool

/-! ## Consumers -/

/-- Where a consumer stands in `Consumer.Start`. -/
inductive Consumer
  /-- At the head of the loop. -/
  | top
  /-- In `recover`, with so many messages left. -/
  | recovering (n : ℕ)
  | recovered
  /-- Waiting for `XREADGROUP`. -/
  | reading
  | received
  /-- The read failed, and is tried again at the time. -/
  | failed (retry : ℕ)
  /-- In `handle`, with the messages left if it was called in `recover`. -/
  | handling (rest : Option ℕ)
  | ended
  deriving DecidableEq

/-- What `XREADGROUP` returns. -/
inductive Reading
  | message
  | nothing
  | failed

/-- What a consumer does by itself, or is told. -/
inductive ConsumerAct
  /-- The head of the loop, with the number of messages if `recover` finds some. -/
  | loop (found : Option ℕ)
  /-- The next message of a recovery. -/
  | next
  | check
  | read (answer : Reading)
  | take
  | retry
  | quit
  /-- `handle` returned. -/
  | handled

/-- `Consumer.Start`, with what it reads of `stop` and `execution`. -/
def Consumer.act (stopped cancelled : Bool) (clock : ℕ) : ConsumerAct → Consumer → Option Consumer
  | .loop none, .top => some (if stopped then .ended else .recovered)
  | .loop (some n), .top => some (if stopped then .ended else .recovering n)
  | .next, .recovering 0 => some .recovered
  | .next, .recovering (n + 1) =>
    if cancelled || stopped then some .recovered else some (.handling (some n))
  | .check, .recovered => some (if stopped then .ended else .reading)
  | .read .message, .reading => some .received
  | .read .nothing, .reading => some (if stopped then .ended else .top)
  | .read .failed, .reading => some (if stopped then .ended else .failed (clock + 1000000))
  | .take, .received => some (if stopped then .ended else .handling none)
  | .retry, .failed retry => if retry ≤ clock then some .top else none
  | .quit, .failed _ => if stopped then some .ended else none
  | .handled, .handling none => some .top
  | .handled, .handling (some n) => some (.recovering n)
  | _, _ => none

/-- How many steps a consumer has left at most, once it is stopped. -/
def Consumer.left : Consumer → ℕ
  | .top => 1
  | .recovering _ => 2
  | .recovered => 1
  | .reading => 2
  | .received => 1
  | .failed _ => 2
  | .handling none => 2
  | .handling (some _) => 3
  | .ended => 0

section Consumers

variable {c c' : Consumer} {a : ConsumerAct} {stopped cancelled : Bool} {clock : ℕ}

theorem Consumer.left_le (c : Consumer) : c.left ≤ 3 := by
  cases c with
  | handling rest => cases rest <;> simp [Consumer.left]
  | _ => simp [Consumer.left]

/-- What a stopped consumer can do. -/
inductive Consumer.Winds : Consumer → Consumer → Prop
  | top : Winds .top .ended
  | recovering {n : ℕ} : Winds (.recovering n) .recovered
  | recovered : Winds .recovered .ended
  | received : Winds .reading .received
  | reading : Winds .reading .ended
  | take : Winds .received .ended
  | retry {t : ℕ} : Winds (.failed t) .top
  | quit {t : ℕ} : Winds (.failed t) .ended
  | handled : Winds (.handling none) .top
  | resumed {n : ℕ} : Winds (.handling (some n)) (.recovering n)

theorem Consumer.act_winds (h : c.act true cancelled clock a = some c') : c.Winds c' := by
  unfold Consumer.act at h
  split at h
  · exact Option.some.inj h ▸ .top
  · exact Option.some.inj h ▸ .top
  · exact Option.some.inj h ▸ .recovering
  · rw [Bool.or_true, if_pos rfl] at h
    exact Option.some.inj h ▸ .recovering
  · exact Option.some.inj h ▸ .recovered
  · exact Option.some.inj h ▸ .received
  · exact Option.some.inj h ▸ .reading
  · exact Option.some.inj h ▸ .reading
  · exact Option.some.inj h ▸ .take
  · exact Option.some.inj (Option.ite_none_right_eq_some.1 h).2 ▸ .retry
  · exact Option.some.inj h ▸ .quit
  · exact Option.some.inj h ▸ .handled
  · exact Option.some.inj h ▸ .resumed
  · cases h

theorem Consumer.Winds.left_lt (h : c.Winds c') : c'.left < c.left := by
  cases h <;> simp [Consumer.left]

/-- A stopped consumer takes no message in hand. -/
theorem Consumer.Winds.not_handling (h : c.Winds c') (rest : Option ℕ) : c' ≠ .handling rest := by
  cases h <;> simp

/-- Consumers only end when they are stopped. -/
theorem Consumer.act_ended (h : c.act stopped cancelled clock a = some .ended) :
    stopped = true := by
  unfold Consumer.act at h
  split at h <;> grind

/-- A stopped consumer that has not ended can take a step. -/
theorem Consumer.act_isSome (h : c ≠ .ended) (cancelled : Bool) (clock : ℕ) :
    ∃ a, (c.act true cancelled clock a).isSome := by
  cases c with
  | top => exact ⟨.loop none, rfl⟩
  | recovering n =>
    refine ⟨.next, ?_⟩
    cases n <;> simp [Consumer.act]
  | recovered => exact ⟨.check, rfl⟩
  | reading => exact ⟨.read .nothing, rfl⟩
  | received => exact ⟨.take, rfl⟩
  | failed => exact ⟨.quit, rfl⟩
  | handling rest => cases rest <;> exact ⟨.handled, rfl⟩
  | ended => exact absurd rfl h

end Consumers

/-! ## The dispatcher -/

/-- Where the loop that calls `Dispatch` stands. -/
inductive Dispatcher
  | checking
  | dispatching
  /-- There is nothing to do until the time. -/
  | pausing (till : ℕ)
  | ended
  deriving DecidableEq

/-- What the dispatch loop does by itself, or is told. -/
inductive DispatcherAct
  | check
  /-- `Dispatch` returned, without an error and with more to do, or not. -/
  | dispatched (more : Bool)
  | resume
  | quit

/-- A step of the dispatch loop, once `stop` is cancelled or before. -/
def Dispatcher.act (stopped : Bool) (clock : ℕ) : DispatcherAct → Dispatcher → Option Dispatcher
  | .check, .checking => some (if stopped then .ended else .dispatching)
  | .dispatched more, .dispatching => some (if more then .checking else .pausing (clock + 250000))
  | .resume, .pausing till => if till ≤ clock then some .checking else none
  | .quit, .pausing _ => if stopped then some .ended else none
  | _, _ => none

/-- How many steps the dispatch loop takes at most after the stop. -/
def Dispatcher.left : Dispatcher → ℕ
  | .checking => 1
  | .dispatching => 3
  | .pausing _ => 2
  | .ended => 0

section Dispatchers

variable {d d' : Dispatcher} {a : DispatcherAct} {stopped : Bool} {clock : ℕ}

theorem Dispatcher.left_le (d : Dispatcher) : d.left ≤ 3 := by
  cases d <;> simp [Dispatcher.left]

theorem Dispatcher.act_left (h : d.act true clock a = some d') : d'.left < d.left := by
  unfold Dispatcher.act at h
  split at h
  · exact Option.some.inj h ▸ Nat.one_pos
  · rename_i more
    obtain rfl := Option.some.inj h
    cases more <;> simp [Dispatcher.left]
  · exact Option.some.inj (Option.ite_none_right_eq_some.1 h).2 ▸ Nat.one_lt_two
  · exact Option.some.inj h ▸ Nat.two_pos
  · cases h

theorem Dispatcher.act_ended (h : d.act stopped clock a = some .ended) : stopped = true := by
  unfold Dispatcher.act at h
  split at h <;> grind

theorem Dispatcher.act_isSome (h : d ≠ .ended) (clock : ℕ) :
    ∃ a, (d.act true clock a).isSome := by
  cases d with
  | checking => exact ⟨.check, rfl⟩
  | dispatching => exact ⟨.dispatched true, rfl⟩
  | pausing => exact ⟨.quit, rfl⟩
  | ended => exact absurd rfl h

end Dispatchers

/-! ## Run -/

/-- The goroutine of `Run`. -/
inductive Main
  /-- Starting the consumers. -/
  | starting
  /-- In `wg.Wait`. -/
  | waiting
  /-- Returning, with an error or not: `drained` is to be closed. -/
  | closing (failed : Bool)
  /-- Returning: `execution` is to be cancelled. -/
  | leaving (failed : Bool)
  | returned (failed : Bool)
  deriving DecidableEq

/-- The goroutine that waits for the shutdown timeout. -/
inductive Watcher
  | waiting
  | timing (deadline : ℕ)
  | ended
  deriving DecidableEq

/-- What the goroutine that waits for the end sees. -/
inductive WatcherAct
  | drained
  | stopped
  | expired

/-- What `config.Load` gives the pool. Durations are in microseconds. -/
structure Settings where
  workerCount : ℕ
  shutdownTimeout : ℕ

end Pool

/-- The goroutines of `Run`, its contexts, and the clock. -/
structure Pool where
  main : Pool.Main
  watcher : Pool.Watcher
  /-- The consumers that were started. -/
  consumers : List Pool.Consumer
  dispatcher : Option Pool.Dispatcher
  /-- When `stop` was cancelled. -/
  stop : Option ℕ
  /-- `drained` is closed. -/
  drained : Bool
  /-- `execution` is cancelled. -/
  cancelled : Bool
  clock : ℕ

namespace Pool

/-- What happens in the pool, one step of one goroutine at a time. -/
inductive Action
  | advance (d : ℕ)
  /-- A signal, or the failure of the health server. -/
  | stop
  /-- There is no nonce for the names of the consumers. -/
  | nonce
  /-- `EnsureConsumerGroup` returned. -/
  | group (ok : Bool)
  | dispatch
  /-- `wg.Wait` returned. -/
  | drain
  | close
  | leave
  | watcher (a : WatcherAct)
  | consumer (i : ℕ) (a : ConsumerAct)
  | dispatcher (a : DispatcherAct)

/-- A step of that goroutine, and whether `execution` is cancelled after it. -/
def Watcher.act (s : Pool) (timeout : ℕ) : WatcherAct → Watcher → Option (Watcher × Bool)
  | .drained, .waiting => if s.drained then some (.ended, s.cancelled) else none
  | .stopped, .waiting =>
    if s.stop.isSome then some (.timing (s.clock + timeout), s.cancelled) else none
  | .drained, .timing _ => if s.drained then some (.ended, s.cancelled) else none
  | .expired, .timing deadline => if deadline ≤ s.clock then some (.ended, true) else none
  | _, _ => none

/-- One step of the pool, if it can be made now. -/
def act (cfg : Settings) (s : Pool) : Action → Option Pool
  | .advance d => some { s with clock := s.clock + d }
  | .stop => if s.stop.isSome then none else some { s with stop := some s.clock }
  | .nonce =>
    if s.main = .starting ∧ s.consumers = [] then some { s with main := .closing true } else none
  | .group ok =>
    if s.main = .starting ∧ s.consumers.length < cfg.workerCount then
      if ok then some { s with consumers := s.consumers ++ [.top] }
      else some { s with main := .closing true }
    else none
  | .dispatch =>
    if s.main = .starting ∧ cfg.workerCount ≤ s.consumers.length then
      some { s with main := .waiting, dispatcher := some .checking }
    else none
  | .drain =>
    if s.main = .waiting ∧ (∀ c ∈ s.consumers, c = .ended) ∧ s.dispatcher = some .ended then
      some { s with main := .closing false }
    else none
  | .close =>
    match s.main with
    | .closing failed => some { s with main := .leaving failed, drained := true }
    | _ => none
  | .leave =>
    match s.main with
    | .leaving failed => some { s with main := .returned failed, cancelled := true }
    | _ => none
  | .watcher a =>
    (s.watcher.act s cfg.shutdownTimeout a).map fun x =>
      { s with watcher := x.1, cancelled := x.2 }
  | .consumer i a =>
    s.consumers[i]?.bind fun c =>
      (c.act s.stop.isSome s.cancelled s.clock a).map fun c' =>
        { s with consumers := s.consumers.set i c' }
  | .dispatcher a =>
    s.dispatcher.bind fun d =>
      (d.act s.stop.isSome s.clock a).map fun d' => { s with dispatcher := some d' }

/-- What a step can do. -/
inductive Acted (cfg : Settings) (s : Pool) : Action → Pool → Prop
  | advance (d : ℕ) : Acted cfg s (.advance d) { s with clock := s.clock + d }
  | stop (h : s.stop = none) : Acted cfg s .stop { s with stop := some s.clock }
  | nonce (h : s.main = .starting) : Acted cfg s .nonce { s with main := .closing true }
  | group (h : s.main = .starting) (hlt : s.consumers.length < cfg.workerCount) :
      Acted cfg s (.group true) { s with consumers := s.consumers ++ [.top] }
  | noGroup (h : s.main = .starting) : Acted cfg s (.group false) { s with main := .closing true }
  | dispatch (h : s.main = .starting) (hle : cfg.workerCount ≤ s.consumers.length) :
      Acted cfg s .dispatch { s with main := .waiting, dispatcher := some .checking }
  | drain (h : s.main = .waiting) (hc : ∀ c ∈ s.consumers, c = .ended)
      (hd : s.dispatcher = some .ended) : Acted cfg s .drain { s with main := .closing false }
  | close {failed : Bool} (h : s.main = .closing failed) :
      Acted cfg s .close { s with main := .leaving failed, drained := true }
  | leave {failed : Bool} (h : s.main = .leaving failed) :
      Acted cfg s .leave { s with main := .returned failed, cancelled := true }
  | drained (h : s.drained = true) (hw : s.watcher ≠ .ended) :
      Acted cfg s (.watcher .drained) { s with watcher := .ended }
  | stopped (h : s.stop.isSome) (hw : s.watcher = .waiting) :
      Acted cfg s (.watcher .stopped) { s with watcher := .timing (s.clock + cfg.shutdownTimeout) }
  | expired {deadline : ℕ} (hw : s.watcher = .timing deadline) (h : deadline ≤ s.clock) :
      Acted cfg s (.watcher .expired) { s with watcher := .ended, cancelled := true }
  | consumer {i : ℕ} {a : ConsumerAct} {c c' : Consumer} (hi : s.consumers[i]? = some c)
      (h : c.act s.stop.isSome s.cancelled s.clock a = some c') :
      Acted cfg s (.consumer i a) { s with consumers := s.consumers.set i c' }
  | dispatcher {a : DispatcherAct} {d d' : Dispatcher} (hd : s.dispatcher = some d)
      (h : d.act s.stop.isSome s.clock a = some d') :
      Acted cfg s (.dispatcher a) { s with dispatcher := some d' }

theorem act_cases {cfg : Settings} {s s' : Pool} {a : Action} (h : s.act cfg a = some s') :
    Acted cfg s a s' := by
  cases a with
  | advance d => exact Option.some.inj h ▸ .advance d
  | stop =>
    simp only [Pool.act] at h
    split at h
    · cases h
    · exact Option.some.inj h ▸ .stop (Option.not_isSome_iff_eq_none.1 ‹_›)
  | nonce =>
    obtain ⟨⟨hmain, -⟩, heq⟩ := Option.ite_none_right_eq_some.1 h
    exact Option.some.inj heq ▸ .nonce hmain
  | group ok =>
    obtain ⟨⟨hmain, hlt⟩, heq⟩ := Option.ite_none_right_eq_some.1 h
    cases ok with
    | true => exact Option.some.inj heq ▸ .group hmain hlt
    | false => exact Option.some.inj heq ▸ .noGroup hmain
  | dispatch =>
    obtain ⟨⟨hmain, hle⟩, heq⟩ := Option.ite_none_right_eq_some.1 h
    exact Option.some.inj heq ▸ .dispatch hmain hle
  | drain =>
    obtain ⟨⟨hmain, hc, hd⟩, heq⟩ := Option.ite_none_right_eq_some.1 h
    exact Option.some.inj heq ▸ .drain hmain hc hd
  | close =>
    simp only [Pool.act] at h
    split at h
    · exact Option.some.inj h ▸ .close ‹_›
    · cases h
  | leave =>
    simp only [Pool.act] at h
    split at h
    · exact Option.some.inj h ▸ .leave ‹_›
    · cases h
  | watcher a =>
    obtain ⟨⟨w, b⟩, hw, rfl⟩ := Option.map_eq_some_iff.1 h
    unfold Watcher.act at hw
    split at hw
    · obtain ⟨hdrained, heq⟩ := Option.ite_none_right_eq_some.1 hw
      obtain ⟨rfl, rfl⟩ := Prod.mk.inj (Option.some.inj heq)
      exact .drained hdrained (by simp [*])
    · obtain ⟨hstop, heq⟩ := Option.ite_none_right_eq_some.1 hw
      obtain ⟨rfl, rfl⟩ := Prod.mk.inj (Option.some.inj heq)
      exact .stopped hstop ‹_›
    · obtain ⟨hdrained, heq⟩ := Option.ite_none_right_eq_some.1 hw
      obtain ⟨rfl, rfl⟩ := Prod.mk.inj (Option.some.inj heq)
      exact .drained hdrained (by simp [*])
    · obtain ⟨hle, heq⟩ := Option.ite_none_right_eq_some.1 hw
      obtain ⟨rfl, rfl⟩ := Prod.mk.inj (Option.some.inj heq)
      exact .expired ‹_› hle
    · cases hw
  | consumer i a =>
    obtain ⟨c, hi, h⟩ := Option.bind_eq_some_iff.1 h
    obtain ⟨c', hc, rfl⟩ := Option.map_eq_some_iff.1 h
    exact .consumer hi hc
  | dispatcher a =>
    obtain ⟨d, hd, h⟩ := Option.bind_eq_some_iff.1 h
    obtain ⟨d', hd', rfl⟩ := Option.map_eq_some_iff.1 h
    exact .dispatcher hd hd'

/-- The passing of time is not a step of anybody. -/
def Action.seen : Action → List Action
  | .advance _ => []
  | a => [a]

/-- The pool, in whose steps it is seen what they are. -/
def machine (cfg : Settings) : Machine Pool Action where
  Start s := s.main = .starting ∧ s.watcher = .waiting ∧ s.consumers = [] ∧ s.dispatcher = none ∧
    s.drained = false ∧ s.cancelled = false ∧ ∀ t, s.stop = some t → t ≤ s.clock
  Step s o s' := ∃ a, s.act cfg a = some s' ∧ o = a.seen

/-- The actions that can be made, one after the other, and what is seen of them. -/
def play (cfg : Settings) : Pool → List Action → Pool × List Action
  | s, [] => (s, [])
  | s, a :: acts =>
    match s.act cfg a with
    | none => s.play cfg acts
    | some s' => ((s'.play cfg acts).1, a.seen ++ (s'.play cfg acts).2)

theorem machine_play (cfg : Settings) (s : Pool) (acts : List Action) :
    (machine cfg).Run s (s.play cfg acts).2 (s.play cfg acts).1 := by
  induction acts generalizing s with
  | nil => exact .refl
  | cons a acts ih =>
    rw [play]
    split
    · exact ih s
    · rename_i s' hs
      have hone : (machine cfg).Run s a.seen s' := .one ⟨a, hs, rfl⟩
      exact hone.trans (ih s')

/-- `Run` was called. -/
def start : Pool := ⟨.starting, .waiting, [], none, none, false, false, 0⟩

theorem machine_start (cfg : Settings) : (machine cfg).Start start :=
  ⟨rfl, rfl, rfl, rfl, rfl, rfl, by simp [start]⟩

/-- A single consumer takes a message in hand, and then the pool is stopped. -/
def stopping : List Action :=
  [.group true, .dispatch, .consumer 0 (.loop none), .consumer 0 .check,
    .consumer 0 (.read .message), .consumer 0 .take, .stop]

/-! ## What holds in every run -/

/-- `Run` is about to return, or has returned: with an error or not. -/
def Main.result? : Main → Option Bool
  | .closing failed => some failed
  | .leaving failed => some failed
  | .returned failed => some failed
  | _ => none

/-- `drained` was closed. -/
def Main.drained : Main → Bool
  | .leaving _ => true
  | .returned _ => true
  | _ => false

/-- What holds of the goroutines of `Run` together. -/
structure Sound (cfg : Settings) (s : Pool) : Prop where
  length_le : s.consumers.length ≤ cfg.workerCount
  starting : s.main = .starting → s.dispatcher = none
  waiting : s.main = .waiting → s.dispatcher.isSome ∧ s.consumers.length = cfg.workerCount
  finished : s.main.result? = some false → s.consumers.length = cfg.workerCount ∧
    (∀ c ∈ s.consumers, c = .ended) ∧ s.dispatcher = some .ended
  drained : s.drained = s.main.drained
  stopped : (∃ c ∈ s.consumers, c = .ended) ∨ s.dispatcher = some .ended → s.stop.isSome
  past : ∀ t, s.stop = some t → t ≤ s.clock
  timing : ∀ deadline, s.watcher = .timing deadline →
    ∃ t, s.stop = some t ∧ t + cfg.shutdownTimeout ≤ deadline
  cancelled : s.cancelled = true → (∃ failed, s.main = .returned failed) ∨
    ∃ t, s.stop = some t ∧ t + cfg.shutdownTimeout ≤ s.clock

section Sound

variable {cfg : Settings} {s s' : Pool} {a : Action}

theorem sound_start (h : (machine cfg).Start s) : s.Sound cfg := by
  obtain ⟨hmain, hw, hc, hd, hdrained, hcancelled, hpast⟩ := h
  exact ⟨by simp [hc], fun _ => hd, by simp [hmain], by simp [hmain, Main.result?],
    by simp [hdrained, hmain, Main.drained], by simp [hc, hd], hpast, by simp [hw],
    by simp [hcancelled]⟩

/-- Time passes. -/
theorem Sound.advance (h : s.Sound cfg) (d : ℕ) :
    Sound cfg { s with clock := s.clock + d } :=
  { h with
    past := fun t ht => (h.past t ht).trans (Nat.le_add_right _ _)
    cancelled := fun hc => (h.cancelled hc).imp_right fun ⟨t, ht, hle⟩ =>
      ⟨t, ht, hle.trans (Nat.le_add_right _ _)⟩ }

/-- The pool is stopped, and nobody has waited for that yet. -/
theorem Sound.stop (h : s.Sound cfg) (hnone : s.stop = none) :
    Sound cfg { s with stop := some s.clock } where
  length_le := h.length_le
  starting := h.starting
  waiting := h.waiting
  finished := h.finished
  drained := h.drained
  stopped _ := rfl
  past t ht := (Option.some.inj ht).ge
  timing deadline hw := by
    obtain ⟨t, ht, -⟩ := h.timing deadline hw
    cases hnone.symm.trans ht
  cancelled hc := by
    obtain hret | ⟨t, ht, -⟩ := h.cancelled hc
    · exact .inl hret
    · cases hnone.symm.trans ht

/-- Before `Run` returns, the execution is only cancelled by the shutdown timeout. -/
theorem Sound.timed_out (h : s.Sound cfg) (hmain : ∀ failed, s.main ≠ .returned failed)
    (hc : s.cancelled = true) : ∃ t, s.stop = some t ∧ t + cfg.shutdownTimeout ≤ s.clock :=
  (h.cancelled hc).resolve_left fun ⟨failed, hret⟩ => hmain failed hret

/-- `Run` goes on to close `drained`, after an error or when all have ended. -/
theorem Sound.toClosing (h : s.Sound cfg) (hmain : s.main = .starting ∨ s.main = .waiting)
    {failed : Bool} (hend : failed = false → s.consumers.length = cfg.workerCount ∧
      (∀ c ∈ s.consumers, c = .ended) ∧ s.dispatcher = some .ended) :
    Sound cfg { s with main := .closing failed } where
  length_le := h.length_le
  starting := nofun
  waiting := nofun
  finished hres := hend (Option.some.inj hres)
  drained := by
    rw [h.drained]
    obtain hmain | hmain := hmain
    · rw [hmain]
      rfl
    · rw [hmain]
      rfl
  stopped := h.stopped
  past := h.past
  timing := h.timing
  cancelled hc := by
    refine .inr (h.timed_out (fun failed hret => ?_) hc)
    obtain hmain | hmain := hmain <;> cases hmain.symm.trans hret

/-- Another consumer is started. -/
theorem Sound.group (h : s.Sound cfg) (hmain : s.main = .starting)
    (hlt : s.consumers.length < cfg.workerCount) :
    Sound cfg { s with consumers := s.consumers ++ [.top] } :=
  { h with
    length_le := by
      rw [List.length_append, List.length_singleton]
      exact hlt
    waiting := fun hw => by cases hmain.symm.trans hw
    finished := fun hres => by
      rw [show s.main = .starting from hmain] at hres
      cases hres
    stopped := fun hend => by
      obtain ⟨c, hc, hce⟩ | hd := hend
      · obtain hc | rfl := List.mem_append.1 hc |>.imp_right List.mem_singleton.1
        · exact h.stopped (.inl ⟨c, hc, hce⟩)
        · cases hce
      · exact h.stopped (.inr hd) }

/-- All consumers were started, and the dispatcher is. -/
theorem Sound.dispatch (h : s.Sound cfg) (hmain : s.main = .starting)
    (hle : cfg.workerCount ≤ s.consumers.length) :
    Sound cfg { s with main := .waiting, dispatcher := some .checking } where
  length_le := h.length_le
  starting := nofun
  waiting _ := ⟨rfl, h.length_le.antisymm hle⟩
  finished := nofun
  drained := by
    rw [h.drained, hmain]
    rfl
  stopped hend := by
    obtain hc | hd := hend
    · exact h.stopped (.inl hc)
    · cases hd
  past := h.past
  timing := h.timing
  cancelled hc := by
    refine .inr (h.timed_out (fun failed hret => ?_) hc)
    cases hmain.symm.trans hret

/-- `drained` is closed. -/
theorem Sound.close (h : s.Sound cfg) {failed : Bool} (hmain : s.main = .closing failed) :
    Sound cfg { s with main := .leaving failed, drained := true } where
  length_le := h.length_le
  starting := nofun
  waiting := nofun
  finished hres := h.finished (by rwa [hmain])
  drained := rfl
  stopped := h.stopped
  past := h.past
  timing := h.timing
  cancelled hc := by
    refine .inr (h.timed_out (fun failed hret => ?_) hc)
    cases hmain.symm.trans hret

/-- `Run` returns, and with it the execution is cancelled. -/
theorem Sound.leave (h : s.Sound cfg) {failed : Bool} (hmain : s.main = .leaving failed) :
    Sound cfg { s with main := .returned failed, cancelled := true } where
  length_le := h.length_le
  starting := nofun
  waiting := nofun
  finished hres := h.finished (by rwa [hmain])
  drained := by
    rw [h.drained, hmain]
    rfl
  stopped := h.stopped
  past := h.past
  timing := h.timing
  cancelled _ := .inl ⟨failed, rfl⟩

/-- The goroutine that waits has seen the stop, and sets the shutdown timeout. -/
theorem Sound.time (h : s.Sound cfg) (hstop : s.stop.isSome) :
    Sound cfg { s with watcher := .timing (s.clock + cfg.shutdownTimeout) } :=
  { h with
    timing := fun deadline heq => by
      obtain ⟨t, ht⟩ := Option.isSome_iff_exists.1 hstop
      obtain rfl := Watcher.timing.inj heq
      exact ⟨t, ht, Nat.add_le_add_right (h.past t ht) _⟩ }

/-- The shutdown timeout has passed. -/
theorem Sound.expire (h : s.Sound cfg) {deadline : ℕ} (hw : s.watcher = .timing deadline)
    (hle : deadline ≤ s.clock) : Sound cfg { s with watcher := .ended, cancelled := true } :=
  { h with
    timing := nofun
    cancelled := fun _ => by
      obtain ⟨t, ht, htle⟩ := h.timing deadline hw
      exact .inr ⟨t, ht, htle.trans hle⟩ }

/-- A consumer goes on, which has not ended: it ends only after the stop. -/
theorem Sound.consumer (h : s.Sound cfg) {i : ℕ} {c c' : Consumer} {a : ConsumerAct}
    (hi : s.consumers[i]? = some c)
    (hact : c.act s.stop.isSome s.cancelled s.clock a = some c') :
    Sound cfg { s with consumers := s.consumers.set i c' } := by
  have hlive : c ≠ .ended := by
    rintro rfl
    exact absurd hact (by cases a <;> simp [Consumer.act])
  exact { h with
    length_le := by
      rw [List.length_set]
      exact h.length_le
    waiting := by simpa using h.waiting
    finished := fun hres => absurd ((h.finished hres).2.1 c (List.mem_of_getElem? hi)) hlive
    stopped := fun hend => by
      obtain ⟨x, hx, hxe⟩ | hd := hend
      · obtain hx | rfl := List.mem_or_eq_of_mem_set hx
        · exact h.stopped (.inl ⟨x, hx, hxe⟩)
        · exact Consumer.act_ended (hxe ▸ hact)
      · exact h.stopped (.inr hd) }

/-- The dispatcher goes on, which has not ended: it ends only after the stop. -/
theorem Sound.dispatcher (h : s.Sound cfg) {d d' : Dispatcher} {a : DispatcherAct}
    (hd : s.dispatcher = some d) (hact : d.act s.stop.isSome s.clock a = some d') :
    Sound cfg { s with dispatcher := some d' } := by
  have hlive : d ≠ .ended := by
    rintro rfl
    exact absurd hact (by cases a <;> simp [Dispatcher.act])
  exact { h with
    starting := fun hmain => by cases hd.symm.trans (h.starting hmain)
    waiting := fun hmain => ⟨rfl, (h.waiting hmain).2⟩
    finished := fun hres =>
      absurd (Option.some.inj (hd.symm.trans (h.finished hres).2.2)) hlive
    stopped := fun hend => by
      obtain hc | hd' := hend
      · exact h.stopped (.inl hc)
      · exact Dispatcher.act_ended (Option.some.inj hd' ▸ hact) }

/-- Every step keeps what holds of the goroutines together. -/
theorem Sound.act (h : s.Sound cfg) (ha : Acted cfg s a s') : s'.Sound cfg := by
  cases ha with
  | advance d => exact h.advance d
  | stop hnone => exact h.stop hnone
  | nonce hmain => exact h.toClosing (.inl hmain) nofun
  | group hmain hlt => exact h.group hmain hlt
  | noGroup hmain => exact h.toClosing (.inl hmain) nofun
  | dispatch hmain hle => exact h.dispatch hmain hle
  | drain hmain hc hd => exact h.toClosing (.inr hmain) fun _ => ⟨(h.waiting hmain).2, hc, hd⟩
  | close hmain => exact h.close hmain
  | leave hmain => exact h.leave hmain
  | drained => exact { h with timing := nofun }
  | stopped hstop => exact h.time hstop
  | expired hw hle => exact h.expire hw hle
  | consumer hi hact => exact h.consumer hi hact
  | dispatcher hd hact => exact h.dispatcher hd hact

theorem sound_run {s₀ : Pool} {tr : List Action} (h₀ : (machine cfg).Start s₀)
    (h : (machine cfg).Run s₀ tr s) : s.Sound cfg :=
  h.keeps (I := fun _ s => s.Sound cfg) (sound_start h₀) fun _ _ _ _ hs hstep => by
    obtain ⟨a, ha, -⟩ := hstep
    exact hs.act (act_cases ha)

end Sound

/-- In every run of the pool, the execution of the deliveries in hand is not cancelled
    before `Run` has returned, unless the shutdown timeout has passed since the stop. And
    `Run` does not return without an error before it was stopped, and all the consumers and
    the dispatcher have ended. -/
theorem executions_last {cfg : Settings} {s₀ s : Pool} {tr : List Action}
    (h₀ : (machine cfg).Start s₀) (h : (machine cfg).Run s₀ tr s) :
    (s.cancelled = true → (∃ failed, s.main = .returned failed) ∨
      ∃ t, s.stop = some t ∧ t + cfg.shutdownTimeout ≤ s.clock) ∧
    (s.main = .returned false → s.stop.isSome ∧ s.consumers.length = cfg.workerCount ∧
      (∀ c ∈ s.consumers, c = .ended) ∧ s.dispatcher = some .ended) := by
  have hs := sound_run h₀ h
  refine ⟨hs.cancelled, fun hmain => ?_⟩
  obtain ⟨hlen, hc, hd⟩ := hs.finished (by rw [hmain, Main.result?])
  exact ⟨hs.stopped (.inr hd), hlen, hc, hd⟩

/-- The message in hand takes longer than the shutdown timeout. -/
theorem executions_last_stopping :
    let s := (start.play ⟨1, 25000000⟩ (stopping ++ [.watcher .stopped, .advance 25000000,
      .watcher .expired])).1
    s.cancelled = true ∧ ∃ t, s.stop = some t ∧ t + 25000000 ≤ s.clock := by
  intro s
  have hlast := (executions_last (machine_start ⟨1, 25000000⟩) (machine_play _ _ _ :
    (machine ⟨1, 25000000⟩).Run start _ s)).1 rfl
  refine ⟨rfl, hlast.resolve_left ?_⟩
  rintro ⟨failed, hmain⟩
  cases (hmain.symm.trans rfl : Main.returned failed = .waiting)

/-! ## After a stop -/

/-- Consumer `i` is in `handle`, with the messages left if it was called in `recover`. -/
def InHand (s : Pool) (i : ℕ) (rest : Option ℕ) : Prop := s.consumers[i]? = some (.handling rest)

/-- How many steps `Run` takes at most after the stop. -/
def Main.left : Main → ℕ
  | .starting => 5
  | .waiting => 3
  | .closing _ => 2
  | .leaving _ => 1
  | .returned _ => 0

/-- How many steps the goroutine that waits takes at most after the stop. -/
def Watcher.left : Watcher → ℕ
  | .waiting => 2
  | .timing _ => 1
  | .ended => 0

/-- How many steps the pool has left at most, once it is stopped. -/
def left (cfg : Settings) (s : Pool) : ℕ :=
  s.main.left + (if s.main = .starting then 2 * (cfg.workerCount - s.consumers.length) else 0) +
    s.watcher.left + (s.consumers.map Consumer.left).sum + (s.dispatcher.map Dispatcher.left).getD 0

section Left

variable {cfg : Settings} {s s' : Pool} {a : Action}

theorem sum_set_lt {cs : List Consumer} {i : ℕ} {c c' : Consumer} (hi : cs[i]? = some c)
    (h : c'.left < c.left) :
    ((cs.set i c').map Consumer.left).sum < (cs.map Consumer.left).sum := by
  induction cs generalizing i with
  | nil => cases hi
  | cons x cs ih =>
    cases i with
    | zero =>
      obtain rfl : x = c := by simpa using hi
      simpa using h
    | succ i => simpa using ih (by simpa using hi)

theorem sum_left_le (cs : List Consumer) : (cs.map Consumer.left).sum ≤ 3 * cs.length := by
  induction cs with
  | nil => exact Nat.le_refl 0
  | cons c cs ih =>
    have hc := c.left_le
    simp only [List.map_cons, List.sum_cons, List.length_cons]
    omega

theorem Sound.left_le (h : s.Sound cfg) : s.left cfg ≤ 3 * cfg.workerCount + 8 := by
  have hcs := sum_left_le s.consumers
  have hlen := h.length_le
  have hw : s.watcher.left ≤ 2 := by cases s.watcher <;> simp [Watcher.left]
  have hd : (s.dispatcher.map Dispatcher.left).getD 0 ≤ 3 := by
    cases s.dispatcher with
    | none => simp
    | some d => exact d.left_le
  unfold Pool.left
  split
  · rw [h.starting ‹_›, ‹s.main = _›]
    simp only [Main.left, Option.map_none, Option.getD_none]
    omega
  · have hm : s.main.left ≤ 3 := by cases hmain : s.main <;> simp_all [Main.left]
    omega

/-- Once the pool is stopped, every step is one of those that are left. -/
theorem Sound.left_lt (h : s.Sound cfg) (hstop : s.stop.isSome) (ha : Acted cfg s a s')
    (hno : ∀ d, a ≠ .advance d) : s'.left cfg < s.left cfg := by
  cases ha with
  | advance d => exact absurd rfl (hno d)
  | stop hnone => simp [hnone] at hstop
  | nonce hmain =>
    simp only [Pool.left, hmain, Main.left, reduceCtorEq, if_true, if_false]
    omega
  | group hmain hlt =>
    simp only [Pool.left, hmain, if_true, List.length_append, List.map_append, List.sum_append,
      List.length_singleton, List.map_singleton, List.sum_singleton, Consumer.left]
    omega
  | noGroup hmain =>
    simp only [Pool.left, hmain, Main.left, reduceCtorEq, if_true, if_false]
    omega
  | dispatch hmain =>
    simp only [Pool.left, hmain, h.starting hmain, Main.left, reduceCtorEq, if_true, if_false,
      Option.map_none, Option.map_some, Option.getD_none, Option.getD_some, Dispatcher.left]
    omega
  | drain hmain => simp [Pool.left, hmain, Main.left]
  | close hmain => simp [Pool.left, hmain, Main.left]
  | leave hmain => simp [Pool.left, hmain, Main.left]
  | drained _ hw =>
    have : 0 < s.watcher.left := by cases hwatch : s.watcher <;> simp_all [Watcher.left]
    have hended : Watcher.ended.left = 0 := rfl
    simp only [Pool.left, hended]
    omega
  | stopped _ hw => simp [Pool.left, hw, Watcher.left]
  | expired hw => simp [Pool.left, hw, Watcher.left]
  | consumer hi hact =>
    rw [hstop] at hact
    have := sum_set_lt hi (Consumer.act_winds hact).left_lt
    simp only [Pool.left, List.length_set]
    omega
  | dispatcher hd hact =>
    rw [hstop] at hact
    have := Dispatcher.act_left hact
    simp only [Pool.left, hd, Option.map_some, Option.getD_some]
    omega

/-- A stopped pool that cannot go on has ended. -/
theorem Sound.ended (h : s.Sound cfg) (hstop : s.stop.isSome)
    (hstuck : ∀ a, (s.act cfg a).isSome → ∃ d, a = .advance d) :
    (∃ failed, s.main = .returned failed) ∧ s.watcher = .ended ∧
      (∀ c ∈ s.consumers, c = .ended) ∧ ∀ d, s.dispatcher = some d → d = .ended := by
  have stuck {a : Action} (hno : ∀ d, a ≠ .advance d) : ¬ (s.act cfg a).isSome := fun hsome =>
    let ⟨d, hd⟩ := hstuck a hsome
    hno d hd
  have hcs : ∀ c ∈ s.consumers, c = .ended := by
    intro c hc
    by_contra hne
    obtain ⟨i, hi⟩ := List.mem_iff_getElem?.1 hc
    obtain ⟨a, ha⟩ := Consumer.act_isSome hne s.cancelled s.clock
    refine stuck (a := .consumer i a) (by simp) ?_
    simpa [Pool.act, hi, hstop] using ha
  have hds : ∀ d, s.dispatcher = some d → d = .ended := by
    intro d hd
    by_contra hne
    obtain ⟨a, ha⟩ := Dispatcher.act_isSome hne s.clock
    refine stuck (a := .dispatcher a) (by simp) ?_
    simpa [Pool.act, hd, hstop] using ha
  have hmain : ∃ failed, s.main = .returned failed := by
    cases hm : s.main with
    | starting =>
      rcases Nat.lt_or_ge s.consumers.length cfg.workerCount with hlt | hle
      · exact (stuck (a := .group true) (by simp) (by simp [Pool.act, hm, hlt])).elim
      · exact (stuck (a := .dispatch) (by simp) (by simp [Pool.act, hm, hle])).elim
    | waiting =>
      obtain ⟨d, hd⟩ := Option.isSome_iff_exists.1 (h.waiting hm).1
      obtain rfl := hds d hd
      exact (stuck (a := .drain) (by simp) (by simpa [Pool.act, hm, hd] using hcs)).elim
    | closing => exact (stuck (a := .close) (by simp) (by simp [Pool.act, hm])).elim
    | leaving => exact (stuck (a := .leave) (by simp) (by simp [Pool.act, hm])).elim
    | returned failed => exact ⟨failed, rfl⟩
  refine ⟨hmain, ?_, hcs, hds⟩
  obtain ⟨failed, hm⟩ := hmain
  have hdrained : s.drained = true := by rw [h.drained, hm, Main.drained]
  cases hw : s.watcher with
  | ended => rfl
  | waiting =>
    exact (stuck (a := .watcher .drained) (by simp)
      (by simp [Pool.act, Watcher.act, hw, hdrained])).elim
  | timing =>
    exact (stuck (a := .watcher .drained) (by simp)
      (by simp [Pool.act, Watcher.act, hw, hdrained])).elim

/-- What a stopped pool has in hand, it had in hand before. -/
theorem Acted.inHand (ha : Acted cfg s a s') (hstop : s.stop.isSome) {i : ℕ} {rest : Option ℕ}
    (h : s'.InHand i rest) : s.InHand i rest := by
  unfold Pool.InHand at h ⊢
  cases ha with
  | group =>
    rcases Nat.lt_or_ge i s.consumers.length with hlt | hle
    · rwa [List.getElem?_append_left hlt] at h
    · rw [List.getElem?_append_right hle] at h
      simpa using List.mem_of_getElem? h
  | @consumer j _ c c' hi hact =>
    rw [hstop] at hact
    rw [List.getElem?_set] at h
    split at h
    · split at h
      · exact absurd (Option.some.inj h) ((Consumer.act_winds hact).not_handling rest)
      · cases h
    · exact h
  | _ => exact h

theorem Acted.stop_kept (ha : Acted cfg s a s') (hstop : s.stop.isSome) : s'.stop.isSome := by
  cases ha with
  | stop => rfl
  | _ => exact hstop

end Left

/-- From every state of a stopped pool on, at most so many steps are taken, whatever the
    order, and no delivery is taken in hand; and when no step is left, `Run` has returned,
    and all its goroutines have ended. -/
theorem shutdown_completes {cfg : Settings} {s₀ s s' : Pool} {tr tr' : List Action}
    (h₀ : (machine cfg).Start s₀) (h : (machine cfg).Run s₀ tr s) (hstop : s.stop.isSome)
    (h' : (machine cfg).Run s tr' s') :
    tr'.length ≤ 3 * cfg.workerCount + 8 ∧
    (∀ i rest, s'.InHand i rest → s.InHand i rest) ∧
    ((∀ a, (s'.act cfg a).isSome → ∃ d, a = .advance d) →
      (∃ failed, s'.main = .returned failed) ∧ s'.watcher = .ended ∧
        (∀ c ∈ s'.consumers, c = .ended) ∧ ∀ d, s'.dispatcher = some d → d = .ended) := by
  have hs := sound_run h₀ h
  have hinv : s'.Sound cfg ∧ s'.stop.isSome ∧ tr'.length + s'.left cfg ≤ s.left cfg ∧
      ∀ i rest, s'.InHand i rest → s.InHand i rest := by
    refine h'.keeps (I := fun tr x => x.Sound cfg ∧ x.stop.isSome ∧
      tr.length + x.left cfg ≤ s.left cfg ∧ ∀ i rest, x.InHand i rest → s.InHand i rest)
      ⟨hs, hstop, by simp, fun _ _ hc => hc⟩ ?_
    rintro tr x o x' ⟨hx, hxs, hlen, hhand⟩ ⟨a, ha, rfl⟩
    have hacted := act_cases ha
    refine ⟨hx.act hacted, hacted.stop_kept hxs, ?_,
      fun i rest hc => hhand i rest (hacted.inHand hxs hc)⟩
    cases a with
    | advance d =>
      cases hacted
      rw [Action.seen, List.append_nil]
      exact hlen
    | _ =>
      have hlt := hx.left_lt hxs hacted (by simp)
      rw [List.length_append]
      show tr.length + 1 + _ ≤ _
      omega
  obtain ⟨hs', hstop', hlen, hhand⟩ := hinv
  have hle := hs.left_le
  exact ⟨by omega, hhand, hs'.ended hstop'⟩

/-- The message in hand is handled, and everything ends. -/
theorem shutdown_completes_stopping :
    let s := (start.play ⟨1, 25000000⟩ stopping).1
    let run := s.play ⟨1, 25000000⟩ [.consumer 0 .handled, .consumer 0 (.loop none),
      .dispatcher .check, .drain, .close, .leave, .watcher .drained]
    run.1.main = .returned false ∧ run.2.length ≤ 11 ∧ s.InHand 0 none ∧
      ∀ i rest, run.1.InHand i rest → s.InHand i rest := by
  intro s run
  obtain ⟨hlen, hhand, -⟩ := shutdown_completes (machine_start _) (machine_play _ _ _)
    (show s.stop.isSome from rfl) (machine_play ⟨1, 25000000⟩ s _)
  exact ⟨rfl, hlen, rfl, hhand⟩

end Pool

end ScaleQueue
