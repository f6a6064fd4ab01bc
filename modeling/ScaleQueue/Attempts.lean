import ScaleQueue.Worker

/-!
# The goroutines of `ProcessJob`

`ProcessJob`, statement by statement: the goroutine that claims a job, calls its
handler and calls `Finish`, and the heartbeat goroutine, with the contexts and the
channels between them. The two take turns in any order; the handler, the methods of
`Store` and whoever may cancel the caller's context do what they want (`Run`).

What the goroutine of the caller has done so far is known from where it stands
(`Told`), and what the channels hold from what the heartbeat has done (`Joint`).
-/

namespace ScaleQueue

/-- An error, as far as `errors.As` looks into it. -/
inductive GoError
  | text (message : String)
  /-- `handlers.Permanent`. -/
  | permanent (e : GoError)
  | wrapping (message : String) (e : GoError)
  deriving DecidableEq

/-- `err.Error()`. -/
def GoError.message : GoError → String
  | .text message => message
  | .permanent e => e.message
  | .wrapping message _ => message

/-- `errors.As` finds a `PermanentError`. -/
def GoError.isPermanent : GoError → Bool
  | .text _ => false
  | .permanent _ => true
  | .wrapping _ e => e.isPermanent

namespace Attempt

/-- The error of `Registry.Get`. -/
def notRegistered (type : String) : GoError := .text ("no handler registered for " ++ type)

/-- What a handler returned, as `outcome` looks at it. -/
def resultOf : Option GoError → Result
  | none => .ok
  | some e => .failed e.message e.isPermanent

theorem resultOf_notRegistered (type : String) :
    resultOf (some (.permanent (notRegistered type))) = unregistered type := rfl

/-- Where the goroutine of the caller stands. -/
inductive Main
  | claiming
  /-- At `Registry.Get`; the heartbeat was started. -/
  | getting (j : Job)
  | handling (j : Job)
  /-- At `close(stopRenew)`; the handler returned `e`. -/
  | stopping (j : Job) (e : Option GoError)
  /-- At `<-done`. -/
  | joining (j : Job) (e : Option GoError)
  /-- At `cancel()`. -/
  | cancelling (j : Job) (e : Option GoError)
  /-- At the `select` on `renewed`. -/
  | receiving (j : Job) (e : Option GoError)
  /-- At `ctx.Err()`. -/
  | checking (j : Job) (e : Option GoError)
  /-- At the call of `Finish`. -/
  | deciding (j : Job) (e : Option GoError)
  | finishing (j : Job)
  /-- The deferred calls are left; `err` will be returned. -/
  | unwinding (err : Option GoError)
  | returned (err : Option GoError)

/-- Where the heartbeat goroutine stands. -/
inductive Heartbeat
  | absent
  | selecting
  | renewing
  /-- At `renewed <- e`. -/
  | sending (e : GoError)
  /-- At `cancel()`. -/
  | cancelling
  /-- The deferred calls are left. -/
  | leaving
  | ended
  deriving DecidableEq

/-- What happens that others can see. -/
inductive Event
  | claimed (j : Option Job) (err : Option GoError)
  /-- The handler returned. -/
  | handled (e : Option GoError)
  | panicked (value : String)
  /-- `Renew` was called. -/
  | renewing
  /-- `Renew` returned. -/
  | renewed (err : Option GoError)
  /-- The heartbeat closed `done`. -/
  | ended
  /-- The caller received from `done`. -/
  | joined
  /-- The caller received from `renewed`. -/
  | received (e : GoError)
  /-- `ctx.Err()` was nil. -/
  | live
  /-- `ctx.Err()` was not nil. -/
  | dead (e : GoError)
  /-- `Finish` was called. -/
  | finishing (status : JobStatus) (message : String) (delay : ℕ)
  /-- `Finish` returned. -/
  | finished (err : Option GoError)

/-- What can be done next, and by whom. -/
inductive Action
  /-- The next statement of the caller's goroutine, which does not wait for a call. -/
  | main (jitter : ℕ)
  | claimReturns (j : Option Job) (err : Option GoError)
  | handlerReturns (e : Option GoError)
  | handlerPanics (value : String)
  | finishReturns (err : Option GoError)
  /-- The `select` of the heartbeat takes a tick. -/
  | tick
  /-- The `select` of the heartbeat takes `stopRenew`. -/
  | stopped
  /-- The `select` of the heartbeat takes `task.Done()`. -/
  | quit
  | renewReturns (err : Option GoError)
  /-- The next statement of the heartbeat, which does not wait for a call. -/
  | beat
  /-- The caller's context is cancelled. -/
  | cancel (e : GoError)
  /-- The cancellation of the caller's context reaches `task`. -/
  | propagate

end Attempt

/-- A call of `ProcessJob`. -/
structure Attempt where
  main : Attempt.Main
  heartbeat : Attempt.Heartbeat
  /-- `ctx.Err()`. -/
  ctxErr : Option GoError
  /-- `task` is cancelled. -/
  taskDone : Bool
  /-- `stopRenew` is closed. -/
  stopRenew : Bool
  /-- `done` is closed. -/
  done : Bool
  /-- What is in the buffer of `renewed`. -/
  renewed : Option GoError

namespace Attempt

/-- A call of `ProcessJob` whose context may be cancelled already. -/
def start (ctxErr : Option GoError) : Attempt :=
  ⟨.claiming, .absent, ctxErr, false, false, false, none⟩

variable (reg : List String) (x : Attempt)

/-- The next statement of the caller's goroutine. -/
def mainStep (jitter : ℕ) : Option (Attempt × Option Event) :=
  match x.main with
  | .getting j =>
    if j.type ∈ reg then some ({ x with main := .handling j }, none)
    else
      some ({ x with main := .stopping j (some (.permanent (notRegistered j.type))) }, none)
  | .stopping j e => some ({ x with main := .joining j e, stopRenew := true }, none)
  | .joining j e => if x.done then some ({ x with main := .cancelling j e }, some .joined) else none
  | .cancelling j e => some ({ x with main := .receiving j e, taskDone := true }, none)
  | .receiving j e =>
    match x.renewed with
    | some e₂ =>
      some ({ x with main := .unwinding (some e₂), renewed := none }, some (.received e₂))
    | none => some ({ x with main := .checking j e }, none)
  | .checking j e =>
    match x.ctxErr with
    | some err => some ({ x with main := .unwinding (some err) }, some (.dead err))
    | none => some ({ x with main := .deciding j e }, some .live)
  | .deciding j e =>
    (outcome j (resultOf e) jitter).map fun (ending, message, delay) =>
      ({ x with main := .finishing j }, some (.finishing ending.status message delay))
  | .unwinding err => some ({ x with main := .returned err, taskDone := true }, none)
  | _ => none

/-- The next statement of the heartbeat. -/
def beatStep : Option (Attempt × Option Event) :=
  match x.heartbeat with
  | .sending e =>
    match x.renewed with
    | none => some ({ x with heartbeat := .cancelling, renewed := some e }, none)
    | some _ => none
  | .cancelling => some ({ x with heartbeat := .leaving, taskDone := true }, none)
  | .leaving => some ({ x with heartbeat := .ended, done := true }, some .ended)
  | _ => none

/-- One step, if it can be made now, and what happened in it. -/
def step : Action → Option (Attempt × Option Event)
  | .main jitter => x.mainStep reg jitter
  | .claimReturns j err =>
    match x.main, j, err with
    | .claiming, some j, none =>
      some ({ x with main := .getting j, heartbeat := .selecting }, some (.claimed (some j) none))
    | .claiming, j, err => some ({ x with main := .returned err }, some (.claimed j err))
    | _, _, _ => none
  | .handlerReturns e =>
    match x.main with
    | .handling j => some ({ x with main := .stopping j e }, some (.handled e))
    | _ => none
  | .handlerPanics value =>
    match x.main with
    | .handling _ =>
      some ({ x with main := .unwinding (some (.text ("handler panic: " ++ value))) },
        some (.panicked value))
    | _ => none
  | .finishReturns err =>
    match x.main with
    | .finishing _ => some ({ x with main := .unwinding err }, some (.finished err))
    | _ => none
  | .tick =>
    if x.heartbeat = .selecting then some ({ x with heartbeat := .renewing }, some .renewing)
    else none
  | .stopped =>
    if x.heartbeat = .selecting ∧ x.stopRenew then some ({ x with heartbeat := .leaving }, none)
    else none
  | .quit =>
    if x.heartbeat = .selecting ∧ x.taskDone then some ({ x with heartbeat := .leaving }, none)
    else none
  | .renewReturns err =>
    if x.heartbeat = .renewing then
      match err with
      | none => some ({ x with heartbeat := .selecting }, some (.renewed none))
      | some e => some ({ x with heartbeat := .sending e }, some (.renewed (some e)))
    else none
  | .beat => x.beatStep
  | .cancel e =>
    match x.ctxErr with
    | none => some ({ x with ctxErr := some e }, none)
    | some _ => none
  | .propagate => if x.ctxErr.isSome then some ({ x with taskDone := true }, none) else none

/-! ## What a step can do -/

/-- The steps. -/
inductive Made (reg : List String) (x : Attempt) : Attempt → Option Event → Prop
  | notClaimed {j err} (hx : x.main = .claiming) (hj : j = none ∨ err ≠ none) :
      Made reg x { x with main := .returned err } (some (.claimed j err))
  | claimed {j} (hx : x.main = .claiming) :
      Made reg x { x with main := .getting j, heartbeat := .selecting }
        (some (.claimed (some j) none))
  | get {j} (hx : x.main = .getting j) (hj : j.type ∈ reg) :
      Made reg x { x with main := .handling j } none
  | unregistered {j} (hx : x.main = .getting j) (hj : j.type ∉ reg) :
      Made reg x { x with main := .stopping j (some (.permanent (notRegistered j.type))) } none
  | handled {j e} (hx : x.main = .handling j) :
      Made reg x { x with main := .stopping j e } (some (.handled e))
  | panicked {j value} (hx : x.main = .handling j) :
      Made reg x { x with main := .unwinding (some (.text ("handler panic: " ++ value))) }
        (some (.panicked value))
  | stop {j e} (hx : x.main = .stopping j e) :
      Made reg x { x with main := .joining j e, stopRenew := true } none
  | join {j e} (hx : x.main = .joining j e) (hdone : x.done = true) :
      Made reg x { x with main := .cancelling j e } (some .joined)
  | cancelTask {j e} (hx : x.main = .cancelling j e) :
      Made reg x { x with main := .receiving j e, taskDone := true } none
  | receive {j e e₂} (hx : x.main = .receiving j e) (hr : x.renewed = some e₂) :
      Made reg x { x with main := .unwinding (some e₂), renewed := none } (some (.received e₂))
  | skip {j e} (hx : x.main = .receiving j e) (hr : x.renewed = none) :
      Made reg x { x with main := .checking j e } none
  | dead {j e err} (hx : x.main = .checking j e) (hctx : x.ctxErr = some err) :
      Made reg x { x with main := .unwinding (some err) } (some (.dead err))
  | live {j e} (hx : x.main = .checking j e) (hctx : x.ctxErr = none) :
      Made reg x { x with main := .deciding j e } (some .live)
  | finish {j e jitter ending message delay} (hx : x.main = .deciding j e)
      (hout : outcome j (resultOf e) jitter = some (ending, message, delay)) :
      Made reg x { x with main := .finishing j } (some (.finishing ending.status message delay))
  | finished {j err} (hx : x.main = .finishing j) :
      Made reg x { x with main := .unwinding err } (some (.finished err))
  | unwind {err} (hx : x.main = .unwinding err) :
      Made reg x { x with main := .returned err, taskDone := true } none
  | tick (hx : x.heartbeat = .selecting) :
      Made reg x { x with heartbeat := .renewing } (some .renewing)
  | leave (hx : x.heartbeat = .selecting) (hwhy : x.stopRenew = true ∨ x.taskDone = true) :
      Made reg x { x with heartbeat := .leaving } none
  | renewed (hx : x.heartbeat = .renewing) :
      Made reg x { x with heartbeat := .selecting } (some (.renewed none))
  | lost {e} (hx : x.heartbeat = .renewing) :
      Made reg x { x with heartbeat := .sending e } (some (.renewed (some e)))
  | send {e} (hx : x.heartbeat = .sending e) (hr : x.renewed = none) :
      Made reg x { x with heartbeat := .cancelling, renewed := some e } none
  | cancelBeat (hx : x.heartbeat = .cancelling) :
      Made reg x { x with heartbeat := .leaving, taskDone := true } none
  | ended (hx : x.heartbeat = .leaving) :
      Made reg x { x with heartbeat := .ended, done := true } (some .ended)
  | cancel {e} (hctx : x.ctxErr = none) : Made reg x { x with ctxErr := some e } none
  | propagate (hctx : x.ctxErr.isSome = true) : Made reg x { x with taskDone := true } none

variable {reg x} {x' : Attempt} {o : Option Event}

theorem mainStep_cases {jitter : ℕ} (h : x.mainStep reg jitter = some (x', o)) :
    Made reg x x' o := by
  unfold mainStep at h
  split at h
  · split at h
    · obtain ⟨rfl, rfl⟩ := Prod.mk.inj (Option.some.inj h)
      exact .get ‹_› ‹_›
    · obtain ⟨rfl, rfl⟩ := Prod.mk.inj (Option.some.inj h)
      exact .unregistered ‹_› ‹_›
  · obtain ⟨rfl, rfl⟩ := Prod.mk.inj (Option.some.inj h)
    exact .stop ‹_›
  · split at h
    · obtain ⟨rfl, rfl⟩ := Prod.mk.inj (Option.some.inj h)
      exact .join ‹_› ‹_›
    · cases h
  · obtain ⟨rfl, rfl⟩ := Prod.mk.inj (Option.some.inj h)
    exact .cancelTask ‹_›
  · split at h
    · obtain ⟨rfl, rfl⟩ := Prod.mk.inj (Option.some.inj h)
      exact .receive ‹_› ‹_›
    · obtain ⟨rfl, rfl⟩ := Prod.mk.inj (Option.some.inj h)
      exact .skip ‹_› ‹_›
  · split at h
    · obtain ⟨rfl, rfl⟩ := Prod.mk.inj (Option.some.inj h)
      exact .dead ‹_› ‹_›
    · obtain ⟨rfl, rfl⟩ := Prod.mk.inj (Option.some.inj h)
      exact .live ‹_› ‹_›
  · obtain ⟨⟨ending, message, delay⟩, hout, heq⟩ := Option.map_eq_some_iff.1 h
    obtain ⟨rfl, rfl⟩ := Prod.mk.inj heq
    exact .finish ‹_› hout
  · obtain ⟨rfl, rfl⟩ := Prod.mk.inj (Option.some.inj h)
    exact .unwind ‹_›
  · cases h

theorem beatStep_cases (h : x.beatStep = some (x', o)) : Made reg x x' o := by
  unfold beatStep at h
  split at h
  · split at h
    · obtain ⟨rfl, rfl⟩ := Prod.mk.inj (Option.some.inj h)
      exact .send ‹_› ‹_›
    · cases h
  · obtain ⟨rfl, rfl⟩ := Prod.mk.inj (Option.some.inj h)
    exact .cancelBeat ‹_›
  · obtain ⟨rfl, rfl⟩ := Prod.mk.inj (Option.some.inj h)
    exact .ended ‹_›
  · cases h

theorem step_cases {a : Action} (h : x.step reg a = some (x', o)) : Made reg x x' o := by
  cases a with
  | main jitter => exact mainStep_cases h
  | beat => exact beatStep_cases h
  | claimReturns j err =>
    simp only [step] at h
    split at h
    · obtain ⟨rfl, rfl⟩ := Prod.mk.inj (Option.some.inj h)
      exact .claimed ‹_›
    · rename_i hx hne
      obtain ⟨rfl, rfl⟩ := Prod.mk.inj (Option.some.inj h)
      refine .notClaimed hx (or_iff_not_imp_left.2 fun hj herr => ?_)
      obtain ⟨j', hj'⟩ := Option.ne_none_iff_exists'.1 hj
      exact hne j' hj' herr
    · cases h
  | handlerReturns e =>
    simp only [step] at h
    split at h
    · obtain ⟨rfl, rfl⟩ := Prod.mk.inj (Option.some.inj h)
      exact .handled ‹_›
    · cases h
  | handlerPanics value =>
    simp only [step] at h
    split at h
    · obtain ⟨rfl, rfl⟩ := Prod.mk.inj (Option.some.inj h)
      exact .panicked ‹_›
    · cases h
  | finishReturns err =>
    simp only [step] at h
    split at h
    · obtain ⟨rfl, rfl⟩ := Prod.mk.inj (Option.some.inj h)
      exact .finished ‹_›
    · cases h
  | tick =>
    obtain ⟨hx, heq⟩ := Option.ite_none_right_eq_some.1 h
    obtain ⟨rfl, rfl⟩ := Prod.mk.inj (Option.some.inj heq)
    exact .tick hx
  | stopped =>
    obtain ⟨⟨hx, hwhy⟩, heq⟩ := Option.ite_none_right_eq_some.1 h
    obtain ⟨rfl, rfl⟩ := Prod.mk.inj (Option.some.inj heq)
    exact .leave hx (.inl hwhy)
  | quit =>
    obtain ⟨⟨hx, hwhy⟩, heq⟩ := Option.ite_none_right_eq_some.1 h
    obtain ⟨rfl, rfl⟩ := Prod.mk.inj (Option.some.inj heq)
    exact .leave hx (.inr hwhy)
  | renewReturns err =>
    obtain ⟨hx, heq⟩ := Option.ite_none_right_eq_some.1 h
    cases err with
    | none =>
      obtain ⟨rfl, rfl⟩ := Prod.mk.inj (Option.some.inj heq)
      exact .renewed hx
    | some e =>
      obtain ⟨rfl, rfl⟩ := Prod.mk.inj (Option.some.inj heq)
      exact .lost hx
  | cancel e =>
    simp only [step] at h
    split at h
    · obtain ⟨rfl, rfl⟩ := Prod.mk.inj (Option.some.inj h)
      exact .cancel ‹_›
    · cases h
  | propagate =>
    obtain ⟨hctx, heq⟩ := Option.ite_none_right_eq_some.1 h
    obtain ⟨rfl, rfl⟩ := Prod.mk.inj (Option.some.inj heq)
    exact .propagate hctx

/-- A run of `ProcessJob`: what happened in it, oldest first, and the state it leads to. -/
inductive Run (reg : List String) : List Event → Attempt → Prop
  | start (ctxErr : Option GoError) : Run reg [] (start ctxErr)
  | step {tr : List Event} {x x' : Attempt} {a : Action} {o : Option Event} :
      Run reg tr x → x.step reg a = some (x', o) → Run reg (tr ++ o.toList) x'

/-- The actions that can be made, one after the other, and what happened in them. -/
def play (reg : List String) : Attempt → List Action → Attempt × List Event
  | x, [] => (x, [])
  | x, a :: acts =>
    match x.step reg a with
    | none => play reg x acts
    | some (x', o) => ((play reg x' acts).1, o.toList ++ (play reg x' acts).2)

theorem Run.play {tr : List Event} (h : Run reg tr x) (acts : List Action) :
    Run reg (tr ++ (x.play reg acts).2) (x.play reg acts).1 := by
  induction acts generalizing tr x with
  | nil => simpa [Attempt.play] using h
  | cons a acts ih =>
    rw [Attempt.play]
    split
    · exact ih h
    · rw [← List.append_assoc]
      exact ih (h.step ‹_›)

/-! ## The caller's goroutine -/

/-- The event is one of the caller's goroutine. -/
def Event.ofMain : Event → Bool
  | .renewing => false
  | .renewed _ => false
  | .ended => false
  | _ => true

/-- The job was claimed, and its handler returned `e`, if it has one. -/
inductive Handled (reg : List String) : List Event → Job → Option GoError → Prop
  | returned {j e} (hj : j.type ∈ reg) :
      Handled reg [.claimed (some j) none, .handled e] j e
  | unregistered {j} (hj : j.type ∉ reg) :
      Handled reg [.claimed (some j) none] j (some (.permanent (notRegistered j.type)))

/-- What the caller's goroutine has done when it stands where it does. -/
inductive Told (reg : List String) : List Event → Main → Prop
  | claiming : Told reg [] .claiming
  | notClaimed {j err} (hj : j = none ∨ err ≠ none) :
      Told reg [.claimed j err] (.returned err)
  | getting {j} : Told reg [.claimed (some j) none] (.getting j)
  | handling {j} (hj : j.type ∈ reg) : Told reg [.claimed (some j) none] (.handling j)
  | panicked {j value} : Told reg [.claimed (some j) none, .panicked value]
      (.unwinding (some (.text ("handler panic: " ++ value))))
  | stopping {es j e} (h : Handled reg es j e) : Told reg es (.stopping j e)
  | joining {es j e} (h : Handled reg es j e) : Told reg es (.joining j e)
  | cancelling {es j e} (h : Handled reg es j e) : Told reg (es ++ [.joined]) (.cancelling j e)
  | receiving {es j e} (h : Handled reg es j e) : Told reg (es ++ [.joined]) (.receiving j e)
  | received {es j e e₂} (h : Handled reg es j e) :
      Told reg (es ++ [.joined, .received e₂]) (.unwinding (some e₂))
  | checking {es j e} (h : Handled reg es j e) : Told reg (es ++ [.joined]) (.checking j e)
  | dead {es j e err} (h : Handled reg es j e) :
      Told reg (es ++ [.joined, .dead err]) (.unwinding (some err))
  | deciding {es j e} (h : Handled reg es j e) :
      Told reg (es ++ [.joined, .live]) (.deciding j e)
  | finishing {es j e jitter ending message delay} (h : Handled reg es j e)
      (hout : outcome j (resultOf e) jitter = some (ending, message, delay)) :
      Told reg (es ++ [.joined, .live, .finishing ending.status message delay]) (.finishing j)
  | finished {es j e jitter ending message delay err} (h : Handled reg es j e)
      (hout : outcome j (resultOf e) jitter = some (ending, message, delay)) :
      Told reg (es ++ [.joined, .live, .finishing ending.status message delay, .finished err])
        (.unwinding err)
  | returned {es err} (h : Told reg es (.unwinding err)) : Told reg es (.returned err)

theorem Told.step {es : List Event} (h : Told reg es x.main) (hm : Made reg x x' o) :
    Told reg (es ++ o.toList.filter Event.ofMain) x'.main := by
  cases hm with
  | notClaimed hx hj =>
    rw [hx] at h
    cases h
    exact .notClaimed hj
  | claimed hx =>
    rw [hx] at h
    cases h
    exact .getting
  | get hx hj =>
    rw [hx] at h
    cases h
    exact .handling hj
  | unregistered hx hj =>
    rw [hx] at h
    cases h
    exact .stopping (.unregistered hj)
  | handled hx =>
    rw [hx] at h
    cases h with
    | handling hj => exact .stopping (.returned hj)
  | panicked hx =>
    rw [hx] at h
    cases h
    exact .panicked
  | stop hx =>
    rw [hx] at h
    cases h with
    | stopping h => simpa using Told.joining h
  | join hx =>
    rw [hx] at h
    cases h with
    | joining h => exact .cancelling h
  | cancelTask hx =>
    rw [hx] at h
    cases h with
    | cancelling h => simpa using Told.receiving h
  | receive hx =>
    rw [hx] at h
    cases h with
    | receiving h => simpa [List.filter_cons, Event.ofMain] using Told.received h
  | skip hx =>
    rw [hx] at h
    cases h with
    | receiving h => simpa using Told.checking h
  | dead hx =>
    rw [hx] at h
    cases h with
    | checking h => simpa [List.filter_cons, Event.ofMain] using Told.dead h
  | live hx =>
    rw [hx] at h
    cases h with
    | checking h => simpa [List.filter_cons, Event.ofMain] using Told.deciding h
  | finish hx hout =>
    rw [hx] at h
    cases h with
    | deciding h => simpa [List.filter_cons, Event.ofMain] using Told.finishing h hout
  | finished hx =>
    rw [hx] at h
    cases h with
    | finishing h hout => simpa [List.filter_cons, Event.ofMain] using Told.finished h hout
  | unwind hx =>
    rw [hx] at h
    simpa using h.returned
  | _ => simpa [Event.ofMain] using h

/-- `Renew` was called. -/
def Event.renews : Event → Bool
  | .renewing => true
  | _ => false

/-- `Renew` returned. -/
def Event.reports : Event → Bool
  | .renewed _ => true
  | _ => false

/-- `Finish` was called. -/
def Event.finishes : Event → Bool
  | .finishing _ _ _ => true
  | _ => false

/-- `a` happened before `b`. -/
def Before (a b : Event) (tr : List Event) : Prop := ∃ t₁ t₂, tr = t₁ ++ b :: t₂ ∧ a ∈ t₁

theorem Before.append {a b : Event} {tr : List Event} (h : Before a b tr) (tr' : List Event) :
    Before a b (tr ++ tr') := by
  obtain ⟨t₁, t₂, rfl, ha⟩ := h
  exact ⟨t₁, t₂ ++ tr', by simp, ha⟩

/-- The heartbeat has stopped looking for ticks. -/
def Heartbeat.over : Heartbeat → Bool
  | .cancelling | .leaving | .ended => true
  | _ => false

/-- What the channels and the contexts say about what happened. -/
structure Joint (reg : List String) (tr : List Event) (x : Attempt) : Prop where
  told : Told reg (tr.filter Event.ofMain) x.main
  absent : (∀ j, .claimed (some j) none ∉ tr) → x.heartbeat = .absent
  ended : x.heartbeat = .ended ↔ .ended ∈ tr
  done : x.done = true ↔ x.heartbeat = .ended
  joined : .joined ∈ tr → x.heartbeat = .ended
  live : .live ∈ tr → Before .ended .live tr
  flights : tr.countP Event.renews =
    tr.countP Event.reports + if x.heartbeat = .renewing then 1 else 0
  sending : ∀ e, x.heartbeat = .sending e → .renewed (some e) ∈ tr
  lost : ∀ e, .renewed (some e) ∈ tr → x.heartbeat = .sending e ∨
    x.heartbeat.over = true ∧ (x.renewed = some e ∨ .received e ∈ tr)
  single : ∀ e e', .renewed (some e) ∈ tr → .renewed (some e') ∈ tr → e = e'
  buffered : ∀ e, x.renewed = some e → .renewed (some e) ∈ tr
  received : ∀ e, .received e ∈ tr → .renewed (some e) ∈ tr
  checked : (∃ j e, x.main = .checking j e) ∨ .live ∈ tr ∨ (∃ e, .dead e ∈ tr) →
    ∀ e, .renewed (some e) ∉ tr
  cancelled : x.taskDone = true → x.ctxErr.isSome = true ∨ (∃ value, .panicked value ∈ tr) ∨
    x.heartbeat.over = true

theorem mem_filter {tr : List Event} {e : Event} (he : e.ofMain = true) :
    e ∈ tr.filter Event.ofMain ↔ e ∈ tr := by
  simp [he]

/-- From `<-done` on the caller's goroutine has joined the heartbeat. -/
theorem Told.joined {es : List Event} {m : Main} (h : Told reg es m)
    (hm : (∃ j e, m = .cancelling j e ∨ m = .receiving j e ∨ m = .checking j e) ∨
      .live ∈ es ∨ ∃ e, .dead e ∈ es) : .joined ∈ es := by
  induction h with
  | stopping h | joining h => cases h <;> simp at hm
  | returned h ih => exact ih (hm.imp (by simp) id)
  | _ => simp_all

theorem Told.unwinding {es : List Event} {err : Option GoError}
    (h : Told reg es (.unwinding err)) : .joined ∈ es ∨ ∃ value, .panicked value ∈ es := by
  cases h <;> simp

/-- Until the `select` on `renewed` nothing is received. -/
theorem Told.unread {es : List Event} {j : Job} {e : Option GoError}
    (h : Told reg es (.receiving j e)) (e₂ : GoError) : .received e₂ ∉ es := by
  cases h with
  | receiving h => cases h <;> simp

section Step

variable {tr : List Event}

theorem Joint.over (h : Joint reg tr x) (hj : .joined ∈ tr) : x.heartbeat.over = true := by
  rw [h.joined hj]
  rfl

theorem Joint.waits (h : Joint reg tr x) (hx : x.main = .claiming) : x.heartbeat = .absent := by
  refine h.absent fun j hj => ?_
  have hmem := (mem_filter rfl).2 hj
  have htold := hx ▸ h.told
  generalize tr.filter Event.ofMain = es at htold hmem
  cases htold
  simp at hmem

/-- Nothing was lost when the buffer is empty after the heartbeat was joined. -/
theorem Joint.skip (h : Joint reg tr x) {j : Job} {e : Option GoError}
    (hx : x.main = .receiving j e) (hr : x.renewed = none) (e' : GoError) :
    .renewed (some e') ∉ tr := by
  intro hmem
  have htold := hx ▸ h.told
  have hended := h.joined ((mem_filter rfl).1 (htold.joined (.inl ⟨j, e, .inr (.inl rfl)⟩)))
  obtain hs | ⟨-, hb | hr'⟩ := h.lost e' hmem
  · cases hended.symm.trans hs
  · cases hr.symm.trans hb
  · exact htold.unread e' ((mem_filter rfl).2 hr')

/-! ### What a step keeps -/

/-- Before the heartbeat has sent an error or stopped, no `Renew` has failed. -/
theorem Joint.quiet (h : Joint reg tr x) (hs : ∀ e, x.heartbeat ≠ .sending e)
    (ho : x.heartbeat.over = false) (e : GoError) : .renewed (some e) ∉ tr := by
  intro he
  obtain hx | ⟨hx, -⟩ := h.lost e he
  · exact hs e hx
  · exact Bool.false_ne_true (ho.symm.trans hx)

theorem Joint.absent_step (h : Joint reg tr x) (hm : Made reg x x' o)
    (hno : ∀ j, .claimed (some j) none ∉ tr ++ o.toList) : x'.heartbeat = .absent := by
  have habsent := h.absent fun j hj => hno j (List.mem_append_left _ hj)
  cases hm with
  | claimed => exact absurd (List.mem_append_right _ List.mem_cons_self) (hno _)
  | tick hx | leave hx | renewed hx | lost hx | send hx | cancelBeat hx | ended hx =>
    cases hx.symm.trans habsent
  | _ => exact habsent

theorem Joint.ended_step (h : Joint reg tr x) (hm : Made reg x x' o) :
    x'.heartbeat = .ended ↔ .ended ∈ tr ++ o.toList := by
  have hno (hx : x.heartbeat ≠ .ended) : .ended ∉ tr := mt h.ended.2 hx
  cases hm with
  | claimed hx => simpa using hno (by simp [h.waits hx])
  | tick hx | leave hx | renewed hx | lost hx | send hx | cancelBeat hx =>
    simpa using hno (by simp [hx])
  | ended => simp
  | _ => simpa using h.ended

theorem Joint.done_step (h : Joint reg tr x) (hm : Made reg x x' o) :
    x'.done = true ↔ x'.heartbeat = .ended := by
  have hno (hx : x.heartbeat ≠ .ended) : ¬ x.done = true := mt h.done.1 hx
  cases hm with
  | claimed hx => simpa using hno (by simp [h.waits hx])
  | tick hx | leave hx | renewed hx | lost hx | send hx | cancelBeat hx =>
    simpa using hno (by simp [hx])
  | ended => simp
  | _ => exact h.done

theorem Joint.joined_step (h : Joint reg tr x) (hm : Made reg x x' o)
    (hj : .joined ∈ tr ++ o.toList) : x'.heartbeat = .ended := by
  have hno (hx : x.heartbeat ≠ .ended) : .joined ∉ tr := mt h.joined hx
  cases hm with
  | join _ hd => exact h.done.1 hd
  | claimed hx => exact absurd (by simpa using hj) (hno (by simp [h.waits hx]))
  | tick hx | leave hx | renewed hx | lost hx | send hx | cancelBeat hx =>
    exact absurd (by simpa using hj) (hno (by simp [hx]))
  | ended => rfl
  | _ => exact h.joined (by simpa using hj)

/-- Whoever finds the context alive has joined the heartbeat before. -/
theorem Joint.live_step (h : Joint reg tr x) (hm : Made reg x x' o)
    (hmem : .live ∈ tr ++ o.toList) : Before .ended .live (tr ++ o.toList) := by
  obtain hmem | hmem := List.mem_append.1 hmem
  · exact (h.live hmem).append _
  · cases hm with
    | @live j e hx =>
      have hj := h.told.joined (.inl ⟨j, e, .inr (.inr hx)⟩)
      exact ⟨tr, [], rfl, h.ended.1 (h.joined ((mem_filter rfl).1 hj))⟩
    | _ => simp at hmem

theorem Joint.flights_step (h : Joint reg tr x) (hm : Made reg x x' o) :
    (tr ++ o.toList).countP Event.renews = (tr ++ o.toList).countP Event.reports +
      if x'.heartbeat = .renewing then 1 else 0 := by
  have hflights := h.flights
  cases hm with
  | claimed hx =>
    rw [h.waits hx] at hflights
    simpa [Event.renews, Event.reports] using hflights
  | tick hx | leave hx | renewed hx | lost hx | send hx | cancelBeat hx | ended hx =>
    rw [hx] at hflights
    simpa [Event.renews, Event.reports] using hflights
  | _ => simpa [Event.renews, Event.reports] using hflights

theorem Joint.sending_step (h : Joint reg tr x) (hm : Made reg x x' o) (e : GoError)
    (he : x'.heartbeat = .sending e) : .renewed (some e) ∈ tr ++ o.toList := by
  cases hm with
  | lost =>
    obtain rfl := Heartbeat.sending.inj he
    exact List.mem_append_right _ List.mem_cons_self
  | claimed | tick | leave | renewed | send | cancelBeat | ended => cases he
  | _ => exact List.mem_append_left _ (h.sending e he)

/-- The error of a `Renew` is about to be sent, is in the buffer, or was received. -/
theorem Joint.lost_step (h : Joint reg tr x) (hm : Made reg x x' o) (e : GoError)
    (he : .renewed (some e) ∈ tr ++ o.toList) : x'.heartbeat = .sending e ∨
      x'.heartbeat.over = true ∧ (x'.renewed = some e ∨ .received e ∈ tr ++ o.toList) := by
  cases hm with
  | claimed hx =>
    refine absurd (by simpa using he) (h.quiet ?_ ?_ e) <;> simp [h.waits hx, Heartbeat.over]
  | tick hx | leave hx | renewed hx =>
    refine absurd (by simpa using he) (h.quiet ?_ ?_ e) <;> simp [hx, Heartbeat.over]
  | @lost e' hx =>
    have hno := h.quiet (by simp [hx]) (by simp [hx, Heartbeat.over]) e
    obtain rfl : e = e' := by simpa [hno] using he
    exact .inl rfl
  | send hx hr =>
    obtain hs | ⟨ho, -⟩ := h.lost e (by simpa using he)
    · exact .inr ⟨rfl, .inl (by rw [Heartbeat.sending.inj (hx.symm.trans hs)])⟩
    · rw [hx] at ho
      cases ho
  | cancelBeat hx | ended hx =>
    obtain hs | ⟨-, hwhere⟩ := h.lost e (by simpa using he)
    · cases hx.symm.trans hs
    · exact .inr ⟨rfl, by simpa using hwhere⟩
  | receive _ hr =>
    obtain hs | ⟨ho, hb | hrec⟩ := h.lost e (by simpa using he)
    · exact .inl hs
    · obtain rfl := Option.some.inj (hr.symm.trans hb)
      exact .inr ⟨ho, .inr (List.mem_append_right _ List.mem_cons_self)⟩
    · exact .inr ⟨ho, .inr (List.mem_append_left _ hrec)⟩
  | _ =>
    obtain hs | ⟨ho, hb | hrec⟩ := h.lost e (by simpa using he)
    · exact .inl hs
    · exact .inr ⟨ho, .inl hb⟩
    · exact .inr ⟨ho, .inr (List.mem_append_left _ hrec)⟩

/-- After the first failure no `Renew` is called. -/
theorem Joint.single_step (h : Joint reg tr x) (hm : Made reg x x' o) (e e' : GoError)
    (he : .renewed (some e) ∈ tr ++ o.toList) (he' : .renewed (some e') ∈ tr ++ o.toList) :
    e = e' := by
  cases hm with
  | @lost e₀ hx =>
    have hno := h.quiet (by simp [hx]) (by simp [hx, Heartbeat.over])
    obtain rfl : e = e₀ := by simpa [hno] using he
    obtain rfl : e' = e := by simpa [hno] using he'
    rfl
  | _ => exact h.single e e' (by simpa using he) (by simpa using he')

theorem Joint.buffered_step (h : Joint reg tr x) (hm : Made reg x x' o) (e : GoError)
    (he : x'.renewed = some e) : .renewed (some e) ∈ tr ++ o.toList := by
  cases hm with
  | receive => cases he
  | send hx =>
    obtain rfl := Option.some.inj he
    exact List.mem_append_left _ (h.sending _ hx)
  | _ => exact List.mem_append_left _ (h.buffered e he)

theorem Joint.received_step (h : Joint reg tr x) (hm : Made reg x x' o) (e : GoError)
    (he : .received e ∈ tr ++ o.toList) : .renewed (some e) ∈ tr ++ o.toList := by
  refine List.mem_append_left _ ?_
  cases hm with
  | @receive _ _ e₂ _ hr =>
    obtain he | rfl : .received e ∈ tr ∨ e = e₂ := by simpa using he
    · exact h.received e he
    · exact h.buffered e hr
  | _ => exact h.received e (by simpa using he)

/-- Whoever has looked at the context has received no error before. -/
theorem Joint.checked_step (h : Joint reg tr x) (hm : Made reg x x' o)
    (hc : (∃ j e, x'.main = .checking j e) ∨ .live ∈ tr ++ o.toList ∨
      ∃ e, .dead e ∈ tr ++ o.toList) (e : GoError) : .renewed (some e) ∉ tr ++ o.toList := by
  cases hm with
  | skip hx hr => simpa using h.skip hx hr e
  | dead hx | live hx => simpa using h.checked (.inl ⟨_, _, hx⟩) e
  | lost hx =>
    -- The heartbeat was joined then, and calls no `Renew` any more.
    have hended : x.heartbeat = .ended := by
      refine h.joined ((mem_filter rfl).1 (h.told.joined (?_ : _ ∨ _)))
      obtain ⟨j, e, hx⟩ | hc := hc
      · exact .inl ⟨j, e, .inr (.inr hx)⟩
      · exact .inr (by simpa [Event.ofMain] using hc)
    cases hx.symm.trans hended
  | tick | leave | renewed | send | cancelBeat | ended | cancel | propagate =>
    simpa using h.checked (by simpa using hc) e
  | _ => simpa using h.checked (.inr (by simpa using hc)) e

/-- The context of the attempt is cancelled from outside, by the panic of its handler, or
    by the heartbeat or after it. -/
theorem Joint.cancelled_step (h : Joint reg tr x) (hm : Made reg x x' o)
    (hd : x'.taskDone = true) : x'.ctxErr.isSome = true ∨
      (∃ value, .panicked value ∈ tr ++ o.toList) ∨ x'.heartbeat.over = true := by
  have before (hd : x.taskDone = true) : x.ctxErr.isSome = true ∨
      (∃ value, .panicked value ∈ tr ++ o.toList) ∨ x.heartbeat.over = true := by
    obtain hctx | ⟨value, hp⟩ | ho := h.cancelled hd
    · exact .inl hctx
    · exact .inr (.inl ⟨value, List.mem_append_left _ hp⟩)
    · exact .inr (.inr ho)
  cases hm with
  | claimed hx =>
    refine (before hd).imp_right (Or.imp_right fun ho => ?_)
    rw [h.waits hx] at ho
    cases ho
  | tick hx | renewed hx | lost hx =>
    refine (before hd).imp_right (Or.imp_right fun ho => ?_)
    rw [hx] at ho
    cases ho
  | leave | send | cancelBeat | ended => exact .inr (.inr rfl)
  | cancelTask hx =>
    have hj := h.told.joined (.inl ⟨_, _, .inl hx⟩)
    exact .inr (.inr (h.over ((mem_filter rfl).1 hj)))
  | unwind hx =>
    obtain hj | ⟨value, hp⟩ := (hx ▸ h.told).unwinding
    · exact .inr (.inr (h.over ((mem_filter rfl).1 hj)))
    · exact .inr (.inl ⟨value, by simpa using (mem_filter rfl).1 hp⟩)
  | cancel => exact .inl rfl
  | propagate hctx => exact .inl hctx
  | _ => exact before hd

theorem Joint.step (h : Joint reg tr x) (hm : Made reg x x' o) :
    Joint reg (tr ++ o.toList) x' where
  told := by
    rw [List.filter_append]
    exact h.told.step hm
  absent := h.absent_step hm
  ended := h.ended_step hm
  done := h.done_step hm
  joined := h.joined_step hm
  live := h.live_step hm
  flights := h.flights_step hm
  sending := h.sending_step hm
  lost := h.lost_step hm
  single := h.single_step hm
  buffered := h.buffered_step hm
  received := h.received_step hm
  checked := h.checked_step hm
  cancelled := h.cancelled_step hm

theorem Joint.start (ctxErr : Option GoError) : Joint reg [] (start ctxErr) where
  told := .claiming
  absent _ := rfl
  single := by simp
  ended := by simp [Attempt.start]
  done := by simp [Attempt.start]
  joined := by simp
  live := by simp
  flights := by simp [Attempt.start]
  sending := by simp [Attempt.start]
  lost := by simp
  buffered := by simp [Attempt.start]
  received := by simp
  checked := by simp
  cancelled := by simp [Attempt.start]

theorem Run.joint (h : Run reg tr x) : Joint reg tr x := by
  induction h with
  | start ctxErr => exact .start ctxErr
  | step _ hs ih => exact ih.step (step_cases hs)

/-- What happened in a run happened in a step of it, after what had happened before. -/
theorem Run.split (h : Run reg tr x) {t₁ t₂ : List Event} {e : Event} (heq : tr = t₁ ++ e :: t₂) :
    ∃ y y', Run reg t₁ y ∧ Made reg y y' (some e) := by
  induction h generalizing t₂ with
  | start => simp at heq
  | @step tr x x' a o hr hs ih =>
    cases o with
    | none => exact ih (by simpa using heq)
    | some e' =>
      obtain rfl | ⟨t₂, e₂, rfl⟩ := t₂.eq_nil_or_concat
      · obtain ⟨rfl, hlast⟩ := List.append_inj' heq rfl
        obtain rfl : e' = e := List.singleton_inj.1 hlast
        exact ⟨_, _, hr, step_cases hs⟩
      · refine ih (List.append_inj' (?_ : tr ++ [e'] = (t₁ ++ e :: t₂) ++ [e₂]) rfl).1
        simpa using heq

end Step

/-- Once `Finish` was called, the caller's goroutine only waits for it and returns. -/
theorem Told.afterFinish {es : List Event} {m : Main} (h : Told reg es m) {status : JobStatus}
    {message : String} {delay : ℕ} (hf : .finishing status message delay ∈ es) :
    .joined ∈ es ∧ .live ∈ es ∧ (∀ value, .panicked value ∉ es) ∧ (∀ j e, m ≠ .deciding j e) := by
  induction h with
  | finishing h | finished h => cases h <;> simp
  | stopping h | joining h | cancelling h | receiving h | received h | checking h | dead h
  | deciding h => cases h <;> simp at hf
  | returned h ih => exact ⟨(ih hf).1, (ih hf).2.1, (ih hf).2.2.1, by simp⟩
  | _ => simp at hf

theorem Told.afterPanic {es : List Event} {m : Main} (h : Told reg es m) {value : String}
    (hp : .panicked value ∈ es) :
    ∃ e, m = .unwinding (some e) ∨ m = .returned (some e) := by
  induction h with
  | panicked => exact ⟨_, .inl rfl⟩
  | returned h ih =>
    obtain ⟨e, he | he⟩ := ih hp
    · exact ⟨e, .inr (by rw [Main.unwinding.inj he])⟩
    · cases he
  | stopping h | joining h | cancelling h | receiving h | received h | checking h | dead h
  | deciding h | finishing h | finished h => cases h <;> simp at hp
  | _ => simp at hp

/-- What `ProcessJob` returns, and why. -/
theorem Told.result {es : List Event} {err : Option GoError} (h : Told reg es (.returned err)) :
    ((∃ value, .panicked value ∈ es) ∨ (∃ e, .received e ∈ es ∧ err = some e) ∨
      (∀ j, .claimed (some j) none ∉ es) ∨ .live ∈ es ∨ ∃ e, .dead e ∈ es) ∧
    (err = none ↔ .claimed none none ∈ es ∨ .finished none ∈ es) := by
  cases h with
  | @notClaimed j _ hj =>
    refine ⟨.inr (.inr (.inl fun j hc => ?_)), ?_⟩
    · obtain ⟨rfl, rfl⟩ := Event.claimed.inj (List.mem_singleton.1 hc)
      simp at hj
    · cases j <;> cases err <;> simp_all
  | returned h =>
    cases h with
    | panicked => simp
    | received h | dead h | finished h => cases h <;> simp [eq_comm]

/-- The status that `Finish` is called with. -/
theorem outcome_status {j : Job} {e : Option GoError} {jitter : ℕ} {ending : Ending}
    {message : String} {delay : ℕ}
    (h : outcome j (resultOf e) jitter = some (ending, message, delay)) :
    (ending.status = .completed ↔ e = none) ∧
    (ending.status = .dead ↔
      ∃ e' ∈ e, e'.isPermanent = true ∨ j.maxRetries + 1 ≤ j.attemptCount) ∧
    (ending.status = .pending ↔
      ∃ e' ∈ e, ¬ (e'.isPermanent = true ∨ j.maxRetries + 1 ≤ j.attemptCount)) := by
  cases e with
  | none =>
    obtain ⟨rfl, -⟩ := Prod.mk.inj (Option.some.inj h)
    simp [Ending.status]
  | some e =>
    obtain ⟨rfl, -⟩ := Prod.mk.inj (Option.some.inj h)
    by_cases hdead : e.isPermanent = true ∨ j.maxRetries + 1 ≤ j.attemptCount
    · rw [if_pos hdead]
      refine ⟨by simp [Ending.status], iff_of_true rfl ⟨e, rfl, hdead⟩, ?_⟩
      refine iff_of_false (by simp [Ending.status]) ?_
      rintro ⟨e', he, hn⟩
      cases he
      exact hn hdead
    · rw [if_neg hdead]
      refine ⟨by simp [Ending.status], ?_, iff_of_true rfl ⟨e, rfl, hdead⟩⟩
      refine iff_of_false (by simp [Ending.status]) ?_
      rintro ⟨e', he, hd⟩
      cases he
      exact hdead hd

/-! ## Coordination -/

/-- The status for a job whose handler returned `e`. -/
structure Decided (reg : List String) (j : Job) (e : Option GoError) (status : JobStatus) :
    Prop where
  completed : status = .completed ↔ e = none
  dead : status = .dead ↔ ∃ e' ∈ e,
    e'.isPermanent = true ∨ j.type ∉ reg ∨ j.maxRetries + 1 ≤ j.attemptCount
  pending : status = .pending ↔ ∃ e' ∈ e,
    ¬ (e'.isPermanent = true ∨ j.type ∉ reg ∨ j.maxRetries + 1 ≤ j.attemptCount)

theorem Handled.decided {es : List Event} {j : Job} {e : Option GoError} (h : Handled reg es j e)
    {jitter : ℕ} {ending : Ending} {message : String} {delay : ℕ}
    (hout : outcome j (resultOf e) jitter = some (ending, message, delay)) :
    Decided reg j e ending.status := by
  obtain ⟨hcompleted, hdead, hpending⟩ := outcome_status hout
  cases h with
  | returned hj => exact ⟨hcompleted, by simpa [hj] using hdead, by simpa [hj] using hpending⟩
  | unregistered hj =>
    refine ⟨hcompleted, by simpa [hj, GoError.isPermanent] using hdead, ?_⟩
    simpa [hj, GoError.isPermanent] using hpending

section Runs

variable {tr t₁ t₂ : List Event}

/-- What has happened before `Finish` is called. -/
theorem Run.finish (h : Run reg t₁ x) {status : JobStatus} {message : String} {delay : ℕ}
    (hm : Made reg x x' (some (.finishing status message delay))) :
    (∀ e ∈ t₁, e.finishes = false) ∧ x.heartbeat = .ended ∧ .live ∈ t₁ ∧
    ∃ j e, .claimed (some j) none ∈ t₁ ∧
      (j.type ∈ reg ∧ .handled e ∈ t₁ ∨ j.type ∉ reg ∧ e ≠ none) ∧ Decided reg j e status := by
  have hj := h.joint
  have htold := hj.told
  cases hm with
  | @finish j e _ _ _ _ hx hout =>
    rw [hx] at htold
    generalize hes : t₁.filter Event.ofMain = fs at htold
    have hmem {e : Event} (he : e.ofMain = true) : e ∈ fs ↔ e ∈ t₁ := hes ▸ mem_filter he
    cases htold with
    | @deciding es _ _ hh =>
      refine ⟨fun e' he' => ?_, hj.joined ((hmem rfl).1 (by simp)), (hmem rfl).1 (by simp),
        j, e, (hmem rfl).1 ?_, ?_, hh.decided hout⟩
      · by_contra hf
        cases e' with
        | finishing =>
          have := (hmem rfl).2 he'
          cases hh <;> simp at this
        | _ => exact hf rfl
      · cases hh <;> simp
      · cases hh with
        | returned hreg => exact .inl ⟨hreg, (hmem rfl).1 (by simp)⟩
        | unregistered hreg => exact .inr ⟨hreg, by simp⟩

/-- No `Renew` is called, and no second `Finish`, once `Finish` was called. -/
theorem Run.afterFinish (h : Run reg tr x) {status : JobStatus} {message : String} {delay : ℕ}
    (hf : .finishing status message delay ∈ tr) {e : Event} (hm : Made reg x x' (some e)) :
    e.renews = false ∧ e.finishes = false := by
  have hj := h.joint
  obtain ⟨hjoined, -, -, hnot⟩ := hj.told.afterFinish ((mem_filter rfl).2 hf)
  cases hm with
  | tick hx => cases hx.symm.trans (hj.joined ((mem_filter rfl).1 hjoined))
  | finish hx => exact absurd hx (hnot _ _)
  | _ => exact ⟨rfl, rfl⟩

/-- `Finish` is called at most once, and no `Renew` is called after it. -/
theorem Run.once (h : Run reg tr x) {status : JobStatus} {message : String} {delay : ℕ}
    (heq : tr = t₁ ++ .finishing status message delay :: t₂) :
    ∀ e ∈ t₂, e.renews = false ∧ e.finishes = false := by
  intro e he
  obtain ⟨u, v, rfl⟩ := List.append_of_mem he
  have hsplit : tr = (t₁ ++ .finishing status message delay :: u) ++ e :: v := by simp [heq]
  obtain ⟨y, y', hy, hm⟩ := h.split hsplit
  exact hy.afterFinish (List.mem_append_right t₁ List.mem_cons_self) hm

end Runs

/-- In every run of `ProcessJob`, `Finish` is called at most once; only after the
    handler returned, the heartbeat ended without a failed `Renew`, and the context of
    the caller was live; no `Renew` is in flight then or called afterwards; and the
    status is the one for what the handler returned. While a `Renew` is in flight, only
    the caller or a panic cancels its context. A panic ends in an error; else
    a failed `Renew` is what is returned; and nothing is returned as an error exactly if
    `Claim` gave no job and no error, or `Finish` succeeded. -/
theorem processJob_coordinates {tr : List Event} (h : Run reg tr x) :
    (∀ t₁ t₂ status message delay, tr = t₁ ++ .finishing status message delay :: t₂ →
      (∀ e ∈ t₁ ++ t₂, e.finishes = false) ∧
      (∀ value, .panicked value ∉ tr) ∧ (∀ e, .renewed (some e) ∉ tr) ∧
      Before .ended .live t₁ ∧
      t₁.countP Event.renews = t₁.countP Event.reports ∧ (∀ e ∈ t₂, e.renews = false) ∧
      ∃ j e, .claimed (some j) none ∈ t₁ ∧
        (j.type ∈ reg ∧ .handled e ∈ t₁ ∨ j.type ∉ reg ∧ e ≠ none) ∧
        Decided reg j e status) ∧
    (x.heartbeat = .renewing → x.taskDone = true →
      x.ctxErr.isSome = true ∨ ∃ value, .panicked value ∈ tr) ∧
    (∀ value, .panicked value ∈ tr →
      ∃ e, x.main = .unwinding (some e) ∨ x.main = .returned (some e)) ∧
    ∀ err, x.main = .returned err →
      (∀ e, .renewed (some e) ∈ tr → (∀ value, .panicked value ∉ tr) → err = some e) ∧
      (err = none ↔ .claimed none none ∈ tr ∨ .finished none ∈ tr) := by
  have hj := h.joint
  refine ⟨fun t₁ t₂ status message delay heq => ?_, fun hr hd => ?_, fun value hp => ?_,
    fun err hx => ⟨fun e he hno => ?_, ?_⟩⟩
  · obtain ⟨y, y', hy, hm⟩ := h.split heq
    obtain ⟨hnone, hended, hlive, hdecided⟩ := hy.finish hm
    have hf : .finishing status message delay ∈ tr := by simp [heq]
    obtain ⟨-, hlive', hnop, -⟩ := hj.told.afterFinish ((mem_filter rfl).2 hf)
    have hflights := hy.joint.flights
    refine ⟨fun e he => ?_, fun value hp => hnop value ((mem_filter rfl).2 hp),
      hj.checked (.inr (.inl ((mem_filter rfl).1 hlive'))), hy.joint.live hlive,
      by simpa [hended] using hflights, fun e he => (h.once heq e he).1, hdecided⟩
    obtain he | he := List.mem_append.1 he
    · exact hnone e he
    · exact (h.once heq e he).2
  · obtain hctx | hp | ho := hj.cancelled hd
    · exact .inl hctx
    · exact .inr hp
    · rw [hr] at ho
      cases ho
  · exact hj.told.afterPanic ((mem_filter rfl).2 hp)
  · obtain ⟨value, hp⟩ | ⟨e', hr, rfl⟩ | hnot | hc := (Told.result (hx ▸ hj.told)).1
    · exact absurd ((mem_filter rfl).1 hp) (hno value)
    · rw [hj.single e e' he (hj.received e' ((mem_filter rfl).1 hr))]
    · have habsent := hj.absent fun j hc => hnot j ((mem_filter rfl).2 hc)
      obtain hs | ⟨ho, -⟩ := hj.lost e he
      · cases habsent.symm.trans hs
      · rw [habsent] at ho
        cases ho
    · exact absurd he (hj.checked (.inr (by simpa [Event.ofMain] using hc)) e)
  · have hresult := (Told.result (hx ▸ hj.told)).2
    rwa [mem_filter rfl, mem_filter rfl] at hresult

/-- A job as its first claim returns it. -/
def firstAttempt : Job :=
  ⟨⟨"patient", by decide⟩, "send_email", .null, .processing, 0, 3, 5, 0, 0, none, none, 1, 1, "w"⟩

/-- The handler returns while a `Renew` is in flight, which is waited for. -/
def patient : List Action :=
  [.claimReturns (some firstAttempt) none, .main 0, .tick, .handlerReturns none, .main 0, .main 0,
    .renewReturns none, .stopped, .beat, .main 0, .main 0, .main 0, .main 0, .main 0,
    .finishReturns none, .main 0]

theorem processJob_coordinates_patient :
    let run := (start none).play registry patient
    run.1.main = .returned none ∧ Before .ended .live (run.2.take 7) ∧
      run.2[7]? = some (.finishing .completed "Completed successfully" 0) := by
  have h : Run registry _ ((start none).play registry patient).1 := (Run.start none).play patient
  have hbefore := ((processJob_coordinates h).1 (((start none).play registry patient).2.take 7)
    (((start none).play registry patient).2.drop 8) .completed "Completed successfully" 0 rfl)
  exact ⟨rfl, hbefore.2.2.2.1, rfl⟩

end Attempt

end ScaleQueue
