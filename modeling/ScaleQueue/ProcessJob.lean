import ScaleQueue.Attempts
import ScaleQueue.Simulation
import ScaleQueue.System

/-!
# The goroutines do what the worker does

The system knows a call of `ProcessJob` by its phase: the heartbeat and the channels are
not in it, and what is done after the handler returned is one step (`WorkerAct.settle`).
The goroutines of the call are simulated by the phases (`goroutines_simulated`): whatever
they ask of the `Store`, and whatever they make of its answers, the worker of the system
can ask and make of them, too.

A cancelled context is not seen before it matters. The worker is told about it only when
the goroutine of the caller looks at it, so that a cancellation that comes after this look
comes after the call of `Finish`.
-/

namespace ScaleQueue

open Simulation

/-- What the `Store` and the handler can see of a call of `ProcessJob`. -/
inductive Seen
  /-- `Claim` returned, without an error if `ok`. -/
  | claimed (j : Option Job) (ok : Bool)
  /-- The handler returned. -/
  | handled (r : Result)
  | renewing
  | renewed (ok : Bool)
  | finishing (status : JobStatus) (message : String) (delay : ℕ)
  | finished (ok : Bool)

/-! ## The worker -/

/-- What is seen of what the worker asks for. -/
def Op.seen : Op → List Seen
  | .renew _ => [.renewing]
  | .finish _ e message delay => [.finishing e.status message delay]
  | _ => []

/-- What is seen of an event of the system. -/
def Event.seen : Event → List Seen
  | .reported _ _ .claim (some (.job j)) => [.claimed (some j) true]
  | .reported _ _ .claim (some (.noJob _)) => [.claimed none true]
  | .reported _ _ .claim _ => [.claimed none false]
  | .reported _ _ .renew a => [.renewed (a matches some .done)]
  | .reported _ _ .finish a => [.finished (a matches some .done)]
  | .returned _ _ _ r => [.handled r]
  | _ => []

/-- What is seen of what a worker brings about. -/
def Effects.seen (fx : Effects) : List Seen :=
  (fx.opens.toList.flatMap fun o => o.2.seen) ++ fx.events.flatMap Event.seen

/-- What worker `w` can do with the delivery in hand, in some state of the system. -/
inductive Phase.Does (cfg : Config) (w : WorkerId) (p : Phase) : List Seen → Phase → Prop
  | act {s : State} {x x' : Worker} {a : WorkerAct} {f : Effects} (hp : x.phase = p)
      (h : x.act cfg s w a = some (x', f)) : Does cfg w p f.seen x'.phase
  | told {sid : Sid} {a : Option Answer} {x x' : Worker} {f : Effects} (hp : x.phase = p)
      (h : x.returned w sid a = some (x', f)) : Does cfg w p f.seen x'.phase

/-- The calls of `ProcessJob`, as the worker of the system makes them. -/
def calls (cfg : Config) (w : WorkerId) : Machine Phase Seen where
  Start p := ∃ h sid, p = .claiming h sid ∧ h.done = false
  Step := Phase.Does cfg w

section Calls

variable {cfg : Config} {w : WorkerId} {h : Handle} {j : Job} {sid : Sid} {b : Beat}

/-- A worker with the delivery in hand. -/
def Phase.worker (p : Phase) : Worker := { Worker.start 0 with phase := p }

theorem calls_act {p : Phase} {a : WorkerAct} {y : Worker} {f : Effects}
    (h : p.worker.act cfg .fresh w a = some (y, f)) : (calls cfg w).Run p f.seen y.phase :=
  .one (.act rfl h)

theorem calls_told {p : Phase} {a : Option Answer} {y : Worker} {f : Effects}
    (h : p.worker.returned w sid a = some (y, f)) : (calls cfg w).Run p f.seen y.phase :=
  .one (.told rfl h)

theorem calls_claimed (j : Job) : (calls cfg w).Run (.claiming h sid) [.claimed (some j) true]
    (.running h j (if j.type ∈ registry then none else some (unregistered j.type)) .waiting) := by
  by_cases hj : j.type ∈ registry
  · have hret : (Phase.claiming h sid).worker.returned w sid (some (.job j)) =
        some (Phase.worker (.running h j none .waiting),
          { events := [.reported w h.number .claim (some (.job j)), .started w h.number j] }) :=
      (if_pos rfl).trans (congrArg some (if_pos hj))
    rw [if_pos hj]
    exact calls_told hret
  · have hret : (Phase.claiming h sid).worker.returned w sid (some (.job j)) =
        some (Phase.worker (.running h j (some (unregistered j.type)) .waiting),
          { events := [.reported w h.number .claim (some (.job j))] }) :=
      (if_pos rfl).trans (congrArg some (if_neg hj))
    rw [if_neg hj]
    exact calls_told hret

theorem calls_noJob :
    (calls cfg w).Run (.claiming h sid) [.claimed none true] (.acking h none) :=
  calls_told (a := some (.noJob .absent)) (y := Phase.worker (.acking h none))
    (f := { events := [.reported w h.number .claim (some (.noJob .absent))] }) (if_pos rfl)

theorem calls_unclaimed : (calls cfg w).Run (.claiming h sid) [.claimed none false] .idle :=
  calls_told (a := none) (y := Phase.worker .idle)
    (f := { events := [.reported w h.number .claim none, .retained w h.number] }) (if_pos rfl)

theorem calls_handled {r : Result} (hr : r ≠ .panicked) : (calls cfg w).Run
    (.running h j none b) [.handled r] (.running h j (some r) b) :=
  calls_act (a := .result r) (y := Phase.worker (.running h j (some r) b))
    (f := { events := [.returned w h.number j r] }) (if_neg hr)

section Beats

variable {r : Option Result}

theorem calls_ticked (hlive : h.done = false) : (calls cfg w).Run (.running h j r .waiting)
    [.renewing] (.running h j r (.renewing ⟨.beat w, 0⟩)) :=
  calls_act (a := .tick) (y := Phase.worker (.running h j r (.renewing ⟨.beat w, 0⟩)))
    (f := { opens := some (.beat w, .renew j) }) (if_neg (by simp [hlive]))

theorem calls_renewed : (calls cfg w).Run (.running h j r (.renewing sid)) [.renewed true]
    (.running h j r .waiting) :=
  calls_told (a := some .done) (y := Phase.worker (.running h j r .waiting))
    (f := { events := [.reported w h.number .renew (some .done)] }) (if_pos rfl)

theorem calls_lost : (calls cfg w).Run (.running h j r (.renewing sid)) [.renewed false]
    (.running h j r .failed) :=
  calls_told (a := none) (y := Phase.worker (.running h j r .failed))
    (f := { events := [.reported w h.number .renew none] }) (if_pos rfl)

end Beats

section Ends

variable {r : Result}

theorem calls_received : (calls cfg w).Run (.running h j (some r) .failed) [] .idle :=
  calls_act (a := .settle 0) (y := Phase.worker .idle)
    (f := { events := [.retained w h.number] }) rfl

/-- The worker is told that its context is cancelled, and gives up. -/
theorem calls_dead : (calls cfg w).Run (.running h j (some r) .waiting) [] .idle := by
  have hact : Worker.act cfg .fresh w
      { Phase.worker (.running h j (some r) .waiting) with stopping := true } .cancel =
      some ({ Phase.worker (.running h.cancel j (some r) .waiting) with stopping := true },
        { events := [.cancelled w h.number] }) := rfl
  have hcancel : (calls cfg w).Run (.running h j (some r) .waiting) []
      (.running h.cancel j (some r) .waiting) := .one (.act rfl hact)
  exact hcancel.trans (calls_act (a := .settle 0) (y := Phase.worker .idle)
    (f := { events := [.retained w h.number] }) rfl)

theorem calls_settled (hlive : h.done = false) {e : Ending} {message : String} {delay jitter : ℕ}
    (hout : outcome j r jitter = some (e, message, delay)) :
    (calls cfg w).Run (.running h j (some r) .waiting) [.finishing e.status message delay]
      (.finishing h j ⟨.worker w, 0⟩) := by
  have hact : (Phase.running h j (some r) .waiting).worker.act cfg .fresh w (.settle jitter) =
      some (Phase.worker (.finishing h j ⟨.worker w, 0⟩),
        { opens := some (.worker w, .finish j e message delay) }) := by
    simp only [Phase.worker, Worker.act, hlive, hout]
    rfl
  exact calls_act hact

theorem calls_finished (hlive : h.done = false) : (calls cfg w).Run (.finishing h j sid)
    [.finished true] (.acking h (some j)) := by
  have hret : (Phase.finishing h j sid).worker.returned w sid (some .done) =
      some (Phase.worker (.acking h (some j)),
        { events := [.reported w h.number .finish (some .done)] }) := by
    simp only [Phase.worker, Worker.returned, if_true, Worker.finishReturned, hlive]
    rfl
  exact calls_told hret

theorem calls_unfinished : (calls cfg w).Run (.finishing h j sid) [.finished false] .idle := by
  have hret : (Phase.finishing h j sid).worker.returned w sid none =
      some (Phase.worker .idle,
        { events := [.reported w h.number .finish none, .retained w h.number] }) := by
    simp only [Phase.worker, Worker.returned, if_true, Worker.finishReturned, ite_self]
    rfl
  exact calls_told hret

end Ends

end Calls

/-! ## The goroutines -/

namespace Attempt

/-- What is seen of an event of the goroutines. -/
def Event.seen : Event → List Seen
  | .claimed j none => [.claimed j true]
  | .claimed _ (some _) => [.claimed none false]
  | .handled e => [.handled (resultOf e)]
  | .renewing => [.renewing]
  | .renewed err => [.renewed err.isNone]
  | .finishing status message delay => [.finishing status message delay]
  | .finished err => [.finished err.isNone]
  | _ => []

/-- The calls of `ProcessJob`, statement by statement, whose handlers do not panic. -/
def goroutines (reg : List String) : Machine Attempt Seen where
  Start x := ∃ ctxErr, x = start ctxErr
  Step x o x' := ∃ a e, x.step reg a = some (x', e) ∧ (∀ value, e ≠ some (.panicked value)) ∧
    o = e.toList.flatMap Event.seen

/-- How the worker knows the heartbeat. -/
inductive Beats (x : Attempt) : Beat → Prop
  | selecting (hx : x.heartbeat = .selecting) (hr : x.renewed = none) : Beats x .waiting
  | renewing {sid} (hx : x.heartbeat = .renewing) (hr : x.renewed = none) : Beats x (.renewing sid)
  | sending {e} (hx : x.heartbeat = .sending e) (hr : x.renewed = none) : Beats x .failed
  | sent {e} (hx : x.heartbeat = .cancelling ∨ x.heartbeat = .leaving ∨ x.heartbeat = .ended)
      (hr : x.renewed = some e) : Beats x .failed
  | left (hx : x.heartbeat = .leaving ∨ x.heartbeat = .ended) (hr : x.renewed = none) :
      Beats x .waiting

/-- How the worker knows the call. -/
inductive Known (x : Attempt) : Phase → Prop
  | claiming {h sid} (hx : x.main = .claiming) (hb : x.heartbeat = .absent)
      (hr : x.renewed = none) (hlive : h.done = false) : Known x (.claiming h sid)
  | getting {h j b} (hx : x.main = .getting j) (hb : Beats x b) (hlive : h.done = false) :
      Known x (.running h j (if j.type ∈ registry then none else some (unregistered j.type)) b)
  | handling {h j b} (hx : x.main = .handling j) (hb : Beats x b) (hlive : h.done = false) :
      Known x (.running h j none b)
  | returning {h j e b} (hx : x.main = .stopping j e ∨ x.main = .joining j e) (hb : Beats x b)
      (hlive : h.done = false) : Known x (.running h j (some (resultOf e)) b)
  | joined {h j e b} (hx : x.main = .cancelling j e ∨ x.main = .receiving j e)
      (hended : x.heartbeat = .ended) (hb : Beats x b) (hlive : h.done = false) :
      Known x (.running h j (some (resultOf e)) b)
  | checking {h j e} (hx : x.main = .checking j e ∨ x.main = .deciding j e)
      (hended : x.heartbeat = .ended) (hlive : h.done = false) :
      Known x (.running h j (some (resultOf e)) .waiting)
  | finishing {h j sid} (hx : x.main = .finishing j) (hended : x.heartbeat = .ended)
      (hlive : h.done = false) : Known x (.finishing h j sid)
  | succeeded {h j} (hx : x.main = .unwinding none ∨ x.main = .returned none)
      (hb : x.heartbeat = .absent ∨ x.heartbeat = .ended) : Known x (.acking h j)
  | failed {e} (hx : x.main = .unwinding (some e) ∨ x.main = .returned (some e))
      (hb : x.heartbeat = .absent ∨ x.heartbeat = .ended) : Known x .idle

section Simulation

variable {cfg : Config} {w : WorkerId} {x x' : Attempt} {p : Phase} {h : Handle} {j : Job}
  {r : Option Result} {b : Beat}

theorem Beats.congr (h : Beats x b) (hb : x'.heartbeat = x.heartbeat)
    (hr : x'.renewed = x.renewed) : Beats x' b := by
  cases h with
  | selecting hx hr' => exact .selecting (hb.trans hx) (hr.trans hr')
  | renewing hx hr' => exact .renewing (hb.trans hx) (hr.trans hr')
  | sending hx hr' => exact .sending (hb.trans hx) (hr.trans hr')
  | sent hx hr' => exact .sent (hb ▸ hx) (hr.trans hr')
  | left hx hr' => exact .left (hb ▸ hx) (hr.trans hr')

/-- The contexts and the channel `done` are not seen. -/
theorem Known.congr (hk : Known x p) (hm : x'.main = x.main) (hb : x'.heartbeat = x.heartbeat)
    (hr : x'.renewed = x.renewed) : Known x' p := by
  cases hk with
  | claiming hx hb' hr' hlive => exact .claiming (hm.trans hx) (hb.trans hb') (hr.trans hr') hlive
  | getting hx hb' hlive => exact .getting (hm.trans hx) (hb'.congr hb hr) hlive
  | handling hx hb' hlive => exact .handling (hm.trans hx) (hb'.congr hb hr) hlive
  | returning hx hb' hlive => exact .returning (hm ▸ hx) (hb'.congr hb hr) hlive
  | joined hx he hb' hlive => exact .joined (hm ▸ hx) (hb.trans he) (hb'.congr hb hr) hlive
  | checking hx he hlive => exact .checking (hm ▸ hx) (hb.trans he) hlive
  | finishing hx he hlive => exact .finishing (hm.trans hx) (hb.trans he) hlive
  | succeeded hx hb' => exact .succeeded (hm ▸ hx) (hb ▸ hb')
  | failed hx hb' => exact .failed (hm ▸ hx) (hb ▸ hb')

/-- While the heartbeat is there, a handler is called or has returned. -/
theorem Known.running (hk : Known x p) (hhere : x.heartbeat ≠ .absent ∧ x.heartbeat ≠ .ended) :
    ∃ h j r b, p = .running h j r b ∧ h.done = false ∧ Beats x b ∧
      ∀ x' b', x'.main = x.main → Beats x' b' → Known x' (.running h j r b') := by
  obtain ⟨habsent, hended⟩ := hhere
  cases hk with
  | claiming _ hb => exact absurd hb habsent
  | getting hx hb hlive =>
    exact ⟨_, _, _, _, rfl, hlive, hb, fun x' b' hm hb' => .getting (hm.trans hx) hb' hlive⟩
  | handling hx hb hlive =>
    exact ⟨_, _, _, _, rfl, hlive, hb, fun x' b' hm hb' => .handling (hm.trans hx) hb' hlive⟩
  | returning hx hb hlive =>
    exact ⟨_, _, _, _, rfl, hlive, hb, fun x' b' hm hb' => .returning (hm ▸ hx) hb' hlive⟩
  | joined _ h => exact absurd h hended
  | checking _ h => exact absurd h hended
  | finishing _ h => exact absurd h hended
  | succeeded _ h => exact absurd h (not_or.2 ⟨habsent, hended⟩)
  | failed _ h => exact absurd h (not_or.2 ⟨habsent, hended⟩)

/-- What the heartbeat does is simulated. -/
theorem Known.beats (hk : Known x p) {o : List Seen} (hmain : x'.main = x.main)
    (hhere : x.heartbeat ≠ .absent ∧ x.heartbeat ≠ .ended)
    (hb : ∀ h j r b, h.done = false → Beats x b →
      ∃ b', (calls cfg w).Run (.running h j r b) o (.running h j r b') ∧ Beats x' b') :
    ∃ p', (calls cfg w).Run p o p' ∧ Known x' p' := by
  obtain ⟨h, j, r, b, rfl, hlive, hbeats, hknown⟩ := hk.running hhere
  obtain ⟨b', hrun, hb'⟩ := hb h j r b hlive hbeats
  exact ⟨_, hrun, hknown x' b' hmain hb'⟩

/-! ### Where the worker stands -/

/-- While the goroutine claims, so does the worker, and there is no heartbeat. -/
theorem Known.of_claiming (hk : Known x p) (hx : x.main = .claiming) :
    ∃ h sid, p = .claiming h sid ∧ x.heartbeat = .absent ∧ x.renewed = none ∧ h.done = false := by
  cases hk with
  | claiming _ hb hr hlive => exact ⟨_, _, rfl, hb, hr, hlive⟩
  | _ => simp_all

theorem Known.of_getting (hk : Known x p) (hx : x.main = .getting j) :
    ∃ h b, p = .running h j (if j.type ∈ registry then none else some (unregistered j.type)) b ∧
      Beats x b ∧ h.done = false := by
  cases hk with
  | getting hx' hb hlive =>
    obtain rfl := Main.getting.inj (hx.symm.trans hx')
    exact ⟨_, _, rfl, hb, hlive⟩
  | _ => simp_all

theorem Known.of_handling (hk : Known x p) (hx : x.main = .handling j) :
    ∃ h b, p = .running h j none b ∧ Beats x b ∧ h.done = false := by
  cases hk with
  | handling hx' hb hlive =>
    obtain rfl := Main.handling.inj (hx.symm.trans hx')
    exact ⟨_, _, rfl, hb, hlive⟩
  | _ => simp_all

/-- The handler has returned `e`, and the heartbeat may still be there. -/
theorem Known.of_returning {e : Option GoError} (hk : Known x p)
    (hx : x.main = .stopping j e ∨ x.main = .joining j e) :
    ∃ h b, p = .running h j (some (resultOf e)) b ∧ Beats x b ∧ h.done = false := by
  cases hk with
  | @returning _ j' e' _ hx' hb hlive =>
    obtain ⟨rfl, rfl⟩ : j' = j ∧ e' = e := by
      obtain hx | hx := hx <;> simpa [hx, eq_comm] using hx'
    exact ⟨_, _, rfl, hb, hlive⟩
  | _ => obtain hx | hx := hx <;> simp_all

/-- The handler has returned `e`, and the heartbeat has ended, with an error or without. -/
theorem Known.of_joined {e : Option GoError} (hk : Known x p)
    (hx : x.main = .cancelling j e ∨ x.main = .receiving j e) :
    ∃ h b, p = .running h j (some (resultOf e)) b ∧ x.heartbeat = .ended ∧ Beats x b ∧
      h.done = false := by
  cases hk with
  | @joined _ j' e' _ hx' hended hb hlive =>
    obtain ⟨rfl, rfl⟩ : j' = j ∧ e' = e := by
      obtain hx | hx := hx <;> simpa [hx, eq_comm] using hx'
    exact ⟨_, _, rfl, hended, hb, hlive⟩
  | _ => obtain hx | hx := hx <;> simp_all

/-- No `Renew` has failed. -/
theorem Known.of_checking {e : Option GoError} (hk : Known x p)
    (hx : x.main = .checking j e ∨ x.main = .deciding j e) :
    ∃ h, p = .running h j (some (resultOf e)) .waiting ∧ x.heartbeat = .ended ∧
      h.done = false := by
  cases hk with
  | @checking _ j' e' hx' hended hlive =>
    obtain ⟨rfl, rfl⟩ : j' = j ∧ e' = e := by
      obtain hx | hx := hx <;> simpa [hx, eq_comm] using hx'
    exact ⟨_, rfl, hended, hlive⟩
  | _ => obtain hx | hx := hx <;> simp_all

theorem Known.of_finishing (hk : Known x p) (hx : x.main = .finishing j) :
    ∃ h sid, p = .finishing h j sid ∧ x.heartbeat = .ended ∧ h.done = false := by
  cases hk with
  | finishing hx' hended hlive =>
    obtain rfl := Main.finishing.inj (hx.symm.trans hx')
    exact ⟨_, _, rfl, hended, hlive⟩
  | _ => simp_all

/-! ### Steps of the caller's goroutine -/

theorem Known.notClaimed (hk : Known x p) (hx : x.main = .claiming) {j : Option Job}
    {err : Option GoError} (hj : j = none ∨ err ≠ none) :
    ∃ p', (calls cfg w).Run p (Event.claimed j err).seen p' ∧
      Known { x with main := .returned err } p' := by
  obtain ⟨h, sid, rfl, hb, -, -⟩ := hk.of_claiming hx
  cases err with
  | none =>
    obtain rfl : j = none := hj.resolve_right (· rfl)
    exact ⟨_, calls_noJob, .succeeded (.inr rfl) (.inl hb)⟩
  | some e => exact ⟨_, calls_unclaimed, .failed (.inr rfl) (.inl hb)⟩

theorem Known.claimed (hk : Known x p) (hx : x.main = .claiming) (j : Job) :
    ∃ p', (calls cfg w).Run p (Event.claimed (some j) none).seen p' ∧
      Known { x with main := .getting j, heartbeat := .selecting } p' := by
  obtain ⟨h, sid, rfl, -, hr, hlive⟩ := hk.of_claiming hx
  exact ⟨_, calls_claimed j, .getting rfl (.selecting rfl hr) hlive⟩

theorem Known.get (hk : Known x p) (hx : x.main = .getting j) (hj : j.type ∈ registry) :
    Known { x with main := .handling j } p := by
  obtain ⟨h, b, rfl, hb, hlive⟩ := hk.of_getting hx
  rw [if_pos hj]
  exact .handling rfl (hb.congr rfl rfl) hlive

theorem Known.unregistered (hk : Known x p) (hx : x.main = .getting j)
    (hj : j.type ∉ registry) :
    Known { x with main := .stopping j (some (.permanent (notRegistered j.type))) } p := by
  obtain ⟨h, b, rfl, hb, hlive⟩ := hk.of_getting hx
  rw [if_neg hj, ← resultOf_notRegistered]
  exact .returning (.inl rfl) (hb.congr rfl rfl) hlive

theorem Known.handled (hk : Known x p) (hx : x.main = .handling j) (e : Option GoError) :
    ∃ p', (calls cfg w).Run p (Event.handled e).seen p' ∧
      Known { x with main := .stopping j e } p' := by
  obtain ⟨h, b, rfl, hb, hlive⟩ := hk.of_handling hx
  have hr : resultOf e ≠ .panicked := by
    cases e <;> simp [resultOf]
  exact ⟨_, calls_handled hr, .returning (.inl rfl) (hb.congr rfl rfl) hlive⟩

theorem Known.stop {e : Option GoError} (hk : Known x p) (hx : x.main = .stopping j e) :
    Known { x with main := .joining j e, stopRenew := true } p := by
  obtain ⟨h, b, rfl, hb, hlive⟩ := hk.of_returning (.inl hx)
  exact .returning (.inr rfl) (hb.congr rfl rfl) hlive

/-- `<-done` returns only after the heartbeat has ended. -/
theorem Known.join {e : Option GoError} (hk : Known x p) (hx : x.main = .joining j e)
    (hended : x.heartbeat = .ended) : Known { x with main := .cancelling j e } p := by
  obtain ⟨h, b, rfl, hb, hlive⟩ := hk.of_returning (.inr hx)
  exact .joined (.inl rfl) hended (hb.congr rfl rfl) hlive

theorem Known.cancelTask {e : Option GoError} (hk : Known x p) (hx : x.main = .cancelling j e) :
    Known { x with main := .receiving j e, taskDone := true } p := by
  obtain ⟨h, b, rfl, hended, hb, hlive⟩ := hk.of_joined (.inl hx)
  exact .joined (.inr rfl) hended (hb.congr rfl rfl) hlive

/-- What is received is the error of a `Renew`, which the worker has seen fail. -/
theorem Known.receive {e : Option GoError} {e₂ : GoError} (hk : Known x p)
    (hx : x.main = .receiving j e) (hr : x.renewed = some e₂) :
    ∃ p', (calls cfg w).Run p [] p' ∧
      Known { x with main := .unwinding (some e₂), renewed := none } p' := by
  obtain ⟨h, b, rfl, hended, hb, -⟩ := hk.of_joined (.inr hx)
  cases hb with
  | sent _ _ => exact ⟨_, calls_received, .failed (.inl rfl) (.inr hended)⟩
  | _ => simp_all

theorem Known.skip {e : Option GoError} (hk : Known x p) (hx : x.main = .receiving j e)
    (hr : x.renewed = none) : Known { x with main := .checking j e } p := by
  obtain ⟨h, b, rfl, hended, hb, hlive⟩ := hk.of_joined (.inr hx)
  cases hb with
  | left _ _ => exact .checking (.inl rfl) hended hlive
  | _ => simp_all

theorem Known.dead {e : Option GoError} (hk : Known x p) (hx : x.main = .checking j e)
    (err : GoError) : ∃ p', (calls cfg w).Run p [] p' ∧
      Known { x with main := .unwinding (some err) } p' := by
  obtain ⟨h, rfl, hended, -⟩ := hk.of_checking (.inl hx)
  exact ⟨_, calls_dead, .failed (.inl rfl) (.inr hended)⟩

theorem Known.live {e : Option GoError} (hk : Known x p) (hx : x.main = .checking j e) :
    Known { x with main := .deciding j e } p := by
  obtain ⟨h, rfl, hended, hlive⟩ := hk.of_checking (.inl hx)
  exact .checking (.inr rfl) hended hlive

theorem Known.finish {e : Option GoError} {jitter : ℕ} {ending : Ending} {message : String}
    {delay : ℕ} (hk : Known x p) (hx : x.main = .deciding j e)
    (hout : outcome j (resultOf e) jitter = some (ending, message, delay)) :
    ∃ p', (calls cfg w).Run p (Event.finishing ending.status message delay).seen p' ∧
      Known { x with main := .finishing j } p' := by
  obtain ⟨h, rfl, hended, hlive⟩ := hk.of_checking (.inr hx)
  exact ⟨_, calls_settled hlive hout, .finishing rfl hended hlive⟩

theorem Known.finished (hk : Known x p) (hx : x.main = .finishing j) (err : Option GoError) :
    ∃ p', (calls cfg w).Run p (Event.finished err).seen p' ∧
      Known { x with main := .unwinding err } p' := by
  obtain ⟨h, sid, rfl, hended, hlive⟩ := hk.of_finishing hx
  cases err with
  | none => exact ⟨_, calls_finished hlive, .succeeded (.inl rfl) (.inr hended)⟩
  | some e => exact ⟨_, calls_unfinished, .failed (.inl rfl) (.inr hended)⟩

theorem Known.unwind {err : Option GoError} (hk : Known x p) (hx : x.main = .unwinding err) :
    Known { x with main := .returned err, taskDone := true } p := by
  cases hk with
  | succeeded hx' hb =>
    obtain rfl : err = none := by simpa [hx] using hx'
    exact .succeeded (.inr rfl) hb
  | @failed e hx' hb =>
    obtain rfl : err = some e := by simpa [hx] using hx'
    exact .failed (.inr rfl) hb
  | _ => simp_all

/-! ### Steps of the heartbeat -/

theorem Known.tick (hk : Known x p) (hx : x.heartbeat = .selecting) :
    ∃ p', (calls cfg w).Run p [.renewing] p' ∧ Known { x with heartbeat := .renewing } p' := by
  refine hk.beats rfl (by simp [hx]) fun h j r b hlive hb => ?_
  cases hb with
  | selecting _ hr => exact ⟨_, calls_ticked hlive, .renewing rfl hr⟩
  | _ => simp_all

theorem Known.leave (hk : Known x p) (hx : x.heartbeat = .selecting) :
    ∃ p', (calls cfg w).Run p [] p' ∧ Known { x with heartbeat := .leaving } p' := by
  refine hk.beats rfl (by simp [hx]) fun h j r b _ hb => ?_
  cases hb with
  | selecting _ hr => exact ⟨_, .refl, .left (.inl rfl) hr⟩
  | _ => simp_all

theorem Known.renewed (hk : Known x p) (hx : x.heartbeat = .renewing) :
    ∃ p', (calls cfg w).Run p [.renewed true] p' ∧
      Known { x with heartbeat := .selecting } p' := by
  refine hk.beats rfl (by simp [hx]) fun h j r b _ hb => ?_
  cases hb with
  | renewing _ hr => exact ⟨_, calls_renewed, .selecting rfl hr⟩
  | _ => simp_all

theorem Known.lost (hk : Known x p) (hx : x.heartbeat = .renewing) (e : GoError) :
    ∃ p', (calls cfg w).Run p [.renewed false] p' ∧
      Known { x with heartbeat := .sending e } p' := by
  refine hk.beats rfl (by simp [hx]) fun h j r b _ hb => ?_
  cases hb with
  | renewing _ hr => exact ⟨_, calls_lost, .sending rfl hr⟩
  | _ => simp_all

theorem Known.send {e : GoError} (hk : Known x p) (hx : x.heartbeat = .sending e) :
    ∃ p', (calls cfg w).Run p [] p' ∧
      Known { x with heartbeat := .cancelling, renewed := some e } p' := by
  refine hk.beats rfl (by simp [hx]) fun h j r b _ hb => ?_
  cases hb with
  | sending _ _ => exact ⟨_, .refl, .sent (.inl rfl) rfl⟩
  | _ => simp_all

theorem Known.cancelBeat (hk : Known x p) (hx : x.heartbeat = .cancelling) :
    ∃ p', (calls cfg w).Run p [] p' ∧
      Known { x with heartbeat := .leaving, taskDone := true } p' := by
  refine hk.beats rfl (by simp [hx]) fun h j r b _ hb => ?_
  cases hb with
  | sent _ hr => exact ⟨_, .refl, .sent (.inr (.inl rfl)) hr⟩
  | _ => simp_all

theorem Known.ended (hk : Known x p) (hx : x.heartbeat = .leaving) :
    ∃ p', (calls cfg w).Run p [] p' ∧
      Known { x with heartbeat := .ended, done := true } p' := by
  refine hk.beats rfl (by simp [hx]) fun h j r b _ hb => ?_
  cases hb with
  | sent _ hr => exact ⟨_, .refl, .sent (.inr (.inr rfl)) hr⟩
  | left _ hr => exact ⟨_, .refl, .left (.inr rfl) hr⟩
  | _ => simp_all

/-! ### The simulation -/

/-- What either goroutine does is simulated. -/
theorem Known.step (hk : Known x p) (hdone : x.done = true → x.heartbeat = .ended)
    {o : Option Event} (hm : Made registry x x' o) (hno : ∀ value, o ≠ some (.panicked value)) :
    ∃ p', (calls cfg w).Run p (o.toList.flatMap Event.seen) p' ∧ Known x' p' := by
  cases hm with
  | notClaimed hx hj =>
    rw [Option.toList_some, List.flatMap_singleton]
    exact hk.notClaimed hx hj
  | @claimed j hx => exact hk.claimed hx j
  | get hx hj => exact ⟨p, .refl, hk.get hx hj⟩
  | unregistered hx hj => exact ⟨p, .refl, hk.unregistered hx hj⟩
  | @handled j e hx => exact hk.handled hx e
  | panicked => exact absurd rfl (hno _)
  | stop hx => exact ⟨p, .refl, hk.stop hx⟩
  | join hx hd => exact ⟨p, .refl, hk.join hx (hdone hd)⟩
  | cancelTask hx => exact ⟨p, .refl, hk.cancelTask hx⟩
  | receive hx hr => exact hk.receive hx hr
  | skip hx hr => exact ⟨p, .refl, hk.skip hx hr⟩
  | @dead j e err hx => exact hk.dead hx err
  | live hx => exact ⟨p, .refl, hk.live hx⟩
  | finish hx hout => exact hk.finish hx hout
  | @finished j err hx => exact hk.finished hx err
  | unwind hx => exact ⟨p, .refl, hk.unwind hx⟩
  | tick hx => exact hk.tick hx
  | leave hx => exact hk.leave hx
  | renewed hx => exact hk.renewed hx
  | @lost e hx => exact hk.lost hx e
  | send hx => exact hk.send hx
  | cancelBeat hx => exact hk.cancelBeat hx
  | ended hx => exact hk.ended hx
  | cancel => exact ⟨p, .refl, hk.congr rfl rfl rfl⟩
  | propagate => exact ⟨p, .refl, hk.congr rfl rfl rfl⟩

/-- `done` is closed by the heartbeat as it ends. -/
theorem Known.done_ended (hk : Known x p) {o : Option Event} (hm : Made registry x x' o)
    (hdone : x.done = true → x.heartbeat = .ended) (hd : x'.done = true) :
    x'.heartbeat = .ended := by
  cases hm with
  | claimed hx =>
    cases hk with
    | claiming _ hb => exact absurd (hb.symm.trans (hdone hd)) (by simp)
    | _ => simp_all
  | _ => simp_all

/-- The calls of the system simulate the goroutines. -/
theorem goroutines_simulated (cfg : Config) (w : WorkerId) :
    Simulates (calls cfg w) (goroutines registry) fun x p =>
      Known x p ∧ (x.done = true → x.heartbeat = .ended) where
  start x hx := by
    obtain ⟨ctxErr, rfl⟩ := hx
    let h : Handle := ⟨0, ⟨0, ⟨none, none⟩⟩, ⟨"job", by decide⟩, 1, 0, false⟩
    exact ⟨.claiming h ⟨.worker w, 0⟩, ⟨h, _, rfl, rfl⟩, .claiming rfl rfl rfl rfl, by simp [start]⟩
  step x p o x' hR hs := by
    obtain ⟨hk, hdone⟩ := hR
    obtain ⟨a, e, hs, hno, rfl⟩ := hs
    have hm := step_cases hs
    obtain ⟨p', hrun, hk'⟩ : ∃ p', (calls cfg w).Run p _ p' ∧ Known x' p' := hk.step hdone hm hno
    exact ⟨p', hrun, hk', hk.done_ended hm hdone⟩

end Simulation

/-- In every call of `ProcessJob` whose handler does not panic, the goroutines ask of the
    `Store` and of the handler what a worker of the system can ask of them, and return
    without an error just if that worker acknowledges the message. -/
theorem processJob_refines {cfg : Config} {w : WorkerId} {x₀ x : Attempt} {tr : List Seen}
    (h₀ : (goroutines registry).Start x₀) (h : (goroutines registry).Run x₀ tr x) :
    ∃ p₀ p, (calls cfg w).Start p₀ ∧ (calls cfg w).Run p₀ tr p ∧
      (x.main = .returned none → ∃ h j, p = .acking h j) ∧
      ∀ e, x.main = .returned (some e) → p = .idle := by
  have hsim := goroutines_simulated cfg w
  obtain ⟨p₀, hp₀, hR₀⟩ := hsim.start x₀ h₀
  obtain ⟨p, hrun, hk, -⟩ := hsim.run hR₀ h
  refine ⟨p₀, p, hp₀, hrun, fun hx => ?_, fun e hx => ?_⟩
  · cases hk <;> simp_all
  · cases hk <;> simp_all

/-- The handler panics. -/
def Event.panics : Event → Bool
  | .panicked _ => true
  | _ => false

theorem goroutines_play (reg : List String) (x : Attempt) (acts : List Action)
    (h : (x.play reg acts).2.any Event.panics = false) :
    (goroutines reg).Run x ((x.play reg acts).2.flatMap Event.seen) (x.play reg acts).1 := by
  induction acts generalizing x with
  | nil => exact .refl
  | cons a acts ih =>
    rw [Attempt.play] at h ⊢
    split at h
    · exact ih x h
    · rename_i x' o hs
      rw [List.any_append, Bool.or_eq_false_iff] at h
      have hone : (goroutines reg).Run x (o.toList.flatMap Event.seen) x' := by
        refine .one ⟨a, o, hs, fun value ho => ?_, rfl⟩
        subst ho
        exact absurd h.1 (by simp [Event.panics])
      rw [List.flatMap_append]
      exact hone.trans (ih x' h.2)

/-- The worker acknowledges the message of the call in which the heartbeat was slow. -/
theorem processJob_refines_patient : ∃ p₀ p h j,
    (calls (.defaults id) "w").Start p₀ ∧ (calls (.defaults id) "w").Run p₀
      [.claimed (some firstAttempt) true, .renewing, .handled .ok, .renewed true,
        .finishing .completed "Completed successfully" 0, .finished true] p ∧
      p = .acking h j := by
  have hpatient := goroutines_play registry (start none) patient (by decide)
  obtain ⟨p₀, p, h₀, hrun, hack, -⟩ := processJob_refines ⟨none, rfl⟩ hpatient
  obtain ⟨h, j, hp⟩ := hack rfl
  exact ⟨p₀, p, h, j, h₀, hrun, hp⟩

end Attempt

end ScaleQueue
