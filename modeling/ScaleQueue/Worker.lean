import Mathlib.Algebra.Group.Nat.Defs
import ScaleQueue.Redis
import ScaleQueue.Store

/-!
# The worker

The pure parts of a worker: how stream messages are written and read
(`encode`, `decode`), the retry delay, and the outcome that `ProcessJob` decides
on (`outcome`); and the state of a worker between its steps: where its consumer
loop stands, and how far it has come with the delivery in hand (`Phase`).
-/

namespace ScaleQueue

/-- The configuration of the workers, as `config.Load` accepts it, and the digest
    of the API. Durations are in microseconds. -/
structure Config where
  lease : ℕ
  recoveryInterval : ℕ
  recoveryIdle : ℕ
  jobTimeout : ℕ
  lease_ge : 30000 ≤ lease
  recoveryInterval_ge : 1000 ≤ recoveryInterval
  recoveryIdle_ge : 1000 ≤ recoveryIdle
  jobTimeout_ge : 1000 ≤ jobTimeout
  digest : Text → Text

/-- The defaults of `config.Load`. -/
def Config.defaults (digest : Text → Text) : Config where
  lease := 30000000
  recoveryInterval := 5000000
  recoveryIdle := 30000000
  jobTimeout := 120000000
  lease_ge := by decide
  recoveryInterval_ge := by decide
  recoveryIdle_ge := by decide
  jobTimeout_ge := by decide
  digest := digest

/-! ## Messages -/

/-- The fields of a stream message that are read. -/
structure Message where
  jobId : Option String
  generation : Option String
  deriving DecidableEq

/-- `queue.Publish`. -/
def encode (p : Place) : Message :=
  ⟨some p.jobId, some (String.ofList (Nat.toDigits 10 p.generation))⟩

/-- Decimal digits, at least one. -/
def digits (ds : List Char) : Option ℕ :=
  if ds ≠ [] ∧ ds.all Char.isDigit then some (Nat.ofDigitChars 10 ds 0) else none

/-- `strconv.Atoi`. -/
def atoi (s : String) : Option ℤ :=
  match s.toList with
  | '-' :: ds => (digits ds).bind fun n => if n ≤ 2 ^ 63 then some (-n) else none
  | '+' :: ds => (digits ds).bind fun n => if n < 2 ^ 63 then some n else none
  | ds => (digits ds).bind fun n => if n < 2 ^ 63 then some n else none

/-- The job and the generation that a message carries, unless it is malformed. -/
def decode (m : Message) : Option (JobId × ℕ) :=
  if hid : m.jobId.getD "" ≠ "" then
    match atoi (m.generation.getD "") with
    | none => none
    | some generation =>
      if generation < 1 then none else some (⟨m.jobId.getD "", hid⟩, generation.toNat)
  else none

theorem digits_toDigits (n : ℕ) : digits (Nat.toDigits 10 n) = some n := by
  have hd : (Nat.toDigits 10 n).all Char.isDigit = true :=
    List.all_eq_true.2 fun c hc => Nat.isDigit_of_mem_toDigits (by decide) (by decide) hc
  simp [digits, hd, Nat.ofDigitChars_toDigits (b := 10) (n := n) (by decide) (by decide)]

theorem atoi_toDigits {n : ℕ} (h : n < 2 ^ 63) :
    atoi (String.ofList (Nat.toDigits 10 n)) = some n := by
  have hd := digits_toDigits n
  have hdigit : ∀ c ∈ Nat.toDigits 10 n, c.isDigit = true :=
    fun c hc => Nat.isDigit_of_mem_toDigits (by decide) (by decide) hc
  unfold atoi
  rw [String.toList_ofList]
  generalize Nat.toDigits 10 n = ds at hd hdigit
  split
  · exact absurd (hdigit _ List.mem_cons_self) (by decide)
  · exact absurd (hdigit _ List.mem_cons_self) (by decide)
  · rw [hd, Option.bind_some, if_pos h]
    rfl

/-- What is published is read back, and is not malformed. -/
theorem decode_encode {p : Place} (h₁ : 1 ≤ p.generation) (h₂ : p.generation < 2 ^ 63) :
    decode (encode p) = some (p.jobId, p.generation) := by
  have hid : (p.jobId : String) ≠ "" := p.jobId.2
  have : ¬ ((p.generation : ℤ) < 1) := by omega
  simp [decode, encode, hid, atoi_toDigits h₂, this]

/-- A message without a generation is malformed. -/
theorem decode_eq_none_of_generation {m : Message} (h : m.generation = none) :
    decode m = none := by
  unfold decode
  split
  · rw [h, show atoi ((none : Option String).getD "") = none by decide]
  · rfl

/-- The registered job types. -/
def registry : List String := ["send_email", "send_notification", "fail_job"]

/-- How a handler ends. -/
inductive Result
  | ok
  | failed (message : String) (permanent : Bool)
  | panicked
  deriving DecidableEq

/-- The permanent error for a type without a handler. -/
def unregistered (type : String) : Result := .failed ("no handler registered for " ++ type) true

/-- `retry.ExponentialDelay`, in nanoseconds. The random draw is `jitter`, taken
    modulo the number of possible draws. -/
def exponentialDelay (attempt jitter : ℕ) : ℕ :=
  let cap := min (2000000000 * 2 ^ min attempt 8) 300000000000
  cap / 2 + jitter % (cap / 2 + 1)

/-- The statuses that `ProcessJob` calls `Finish` with. -/
inductive Ending
  | completed
  | pending
  | dead
  deriving DecidableEq

/-- The status in the row. -/
def Ending.status : Ending → JobStatus
  | .completed => .completed
  | .pending => .pending
  | .dead => .dead

@[simp] theorem Ending.status_pending : Ending.pending.status = .pending := rfl

theorem Ending.status_eq_pending {e : Ending} : e.status = .pending ↔ e = .pending := by
  cases e <;> simp [Ending.status]

/-- What `ProcessJob` decides after the handler returned: the status, the message
    and the delay in microseconds that it calls `Finish` with. -/
def outcome (j : Job) (result : Result) (jitter : ℕ) : Option (Ending × String × ℕ) :=
  match result with
  | .ok => some (.completed, "Completed successfully", 0)
  | .failed message permanent =>
    some (if permanent ∨ j.maxRetries + 1 ≤ j.attemptCount then .dead else .pending, message,
      exponentialDelay j.retryCount jitter / 1000)
  | .panicked => none

/-! ## The state of a worker -/

/-- Who opens a session. -/
inductive Party
  | worker (w : WorkerId)
  /-- The heartbeat of a worker. -/
  | beat (w : WorkerId)
  | dispatcher (d : ℕ)
  | call (c : ℕ)
  deriving DecidableEq

/-- A session with the database. -/
structure Sid where
  party : Party
  number : ℕ
  deriving DecidableEq

/-- A call of `Consumer.handle` with a well-formed message. -/
structure Handle where
  number : ℕ
  entry : Redis.Entry Message
  jobId : JobId
  generation : ℕ
  /-- When the job timeout cancels its context. -/
  deadline : ℕ
  /-- Its context is cancelled. -/
  done : Bool

/-- The heartbeat goroutine of an attempt. -/
inductive Beat
  | waiting
  | renewing (sid : Sid)
  /-- A `Renew` failed, and the heartbeat ended. -/
  | failed
  deriving DecidableEq

/-- How far a worker has come with the delivery in hand. -/
inductive Phase
  | idle
  | claiming (h : Handle) (sid : Sid)
  /-- The handler is running, or has returned `result`. -/
  | running (h : Handle) (j : Job) (result : Option Result) (beat : Beat)
  | finishing (h : Handle) (j : Job) (sid : Sid)
  /-- `ProcessJob` returned no error; `j` is the job it claimed, if it did. -/
  | acking (h : Handle) (j : Option Job)

/-- Where the loop of `Consumer.Start` stands. -/
inductive Point
  | top
  /-- In `recover`, with the rest of the messages it claimed. -/
  | recovering (batch : List (Redis.Entry Message))
  | reading

/-- A consumer goroutine: where it is in its loop, and what it knows. -/
structure Worker where
  point : Point
  phase : Phase
  cursor : ℕ
  /-- When to recover next. -/
  next : ℕ
  /-- `stop` is cancelled. -/
  stopping : Bool
  /-- Neither crashed nor returned from `Start`. -/
  up : Bool

/-- A worker as `Consumer.Start` finds it. -/
def Worker.start (now : ℕ) : Worker := ⟨.top, .idle, 0, now, false, true⟩

/-- The context of the execution is cancelled. -/
def Handle.cancel (h : Handle) : Handle := { h with done := true }

/-- The delivery in hand. -/
def Phase.handle? : Phase → Option Handle
  | .idle => none
  | .claiming h _ => some h
  | .running h _ _ _ => some h
  | .finishing h _ _ => some h
  | .acking h _ => some h

/-- The context of the delivery in hand is cancelled. -/
def Phase.cancel : Phase → Phase
  | .idle => .idle
  | .claiming h sid => .claiming h.cancel sid
  | .running h j result beat => .running h.cancel j result beat
  | .finishing h j sid => .finishing h.cancel j sid
  | .acking h j => .acking h.cancel j

/-- The transaction that the worker waits for, its heartbeat apart. -/
def Phase.session? : Phase → Option Sid
  | .claiming _ sid => some sid
  | .finishing _ _ sid => some sid
  | _ => none

end ScaleQueue
