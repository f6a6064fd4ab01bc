import Mathlib.Data.List.MinMax
import ScaleQueue.Tables

/-!
# The worker's transactions

`Store.Claim`, `Store.Renew`, `Store.Finish` and `Store.Dispatch` as transaction
scripts, statement by statement. Every early return rolls back (the deferred
`tx.Rollback`), so it is an `abort` here, whether it returns an error or not.

The changes that the statements make to a job row are functions of their own
(`JobRow.claim` and so on), so that what a transaction does can be said without
running its script.
-/

namespace ScaleQueue

open Locking

/-- A job as the worker knows it (`models.Job`). -/
structure Job where
  id : JobId
  type : String
  payload : Json
  status : JobStatus
  retryCount : ℕ
  maxRetries : ℕ
  priority : ℕ
  createdAt : ℕ
  updatedAt : ℕ
  processedAt : Option ℕ
  errorMsg : Option String
  generation : ℕ
  attemptCount : ℕ
  leaseOwner : WorkerId

/-- The errors that a transaction may return. -/
inductive Err
  | busy
  | lostLease
  | noRows
  | dupEntry
  | outOfRange
  | publishFailed
  | jobNotFound
  | jobNotRequeueable
  deriving DecidableEq

/-- Which of its `nil` results `Claim` returned; its caller cannot tell. -/
inductive Discard
  | absent
  | stale
  | early
  | exhausted
  deriving DecidableEq

/-- What transactions return, and which outbox row `Dispatch` has handled. -/
inductive Answer
  | job (j : Job)
  | noJob (why : Discard)
  | done
  /-- The outbox row at `p` was published or deleted. -/
  | dispatched (p : Place)
  | drained
  | row (r : Option JobRow)
  | error (e : Err)

/-- A transaction of the program; the one call it waits for is the publication of
    an outbox row. -/
abbrev Tx := Script Tables Key Write OutboxRow Answer

/-! ## Statements -/

/-- `SELECT ... FROM jobs WHERE id=? FOR UPDATE`. -/
def selectForUpdate (id : JobId) (next : ℕ → Option JobRow → Tx) : Tx :=
  .stmt [.job id] (fun _ _ => []) fun e t => next e.now (t.job? id)

/-- `UPDATE jobs SET ... WHERE id=?`. -/
def updateJob (id : JobId) (f : ℕ → JobUpdate) (next : Tx) : Tx :=
  .stmt [.job id] (fun e _ => [.updateJob id (f e.now)]) fun _ _ => next

/-- `UPDATE jobs SET ... WHERE id=? AND ...`. The rest of the transaction depends
    on the number of rows that were changed. -/
def updateWhere (id : JobId) (cond : ℕ → JobRow → Bool) (f : ℕ → JobUpdate)
    (changes : ℕ → JobRow → Bool) (next : ℕ → Tx) : Tx :=
  .stmt [.job id]
    (fun e t => if (t.job? id).any (cond e.now) then [.updateJob id (f e.now)] else [])
    fun e t => next (if (t.job? id).any fun r => cond e.now r && changes e.now r then 1 else 0)

/-- `INSERT INTO job_audit_logs`. -/
def insertLog (id : JobId) (fromStatus : Option JobStatus) (toStatus : JobStatus)
    (message : String) (workerId : Option WorkerId) (next : Tx) : Tx :=
  .stmt [.job id]
    (fun e _ => [.insertLog ⟨e.serial, id, fromStatus, toStatus, message, workerId, seconds e.now⟩])
    fun _ _ => next

/-- `INSERT INTO job_outbox`. -/
def insertOutbox (p : Place) (availableAt : ℕ → ℕ) (next : Tx) : Tx :=
  .stmt [.out p]
    (fun e t =>
      if t.out? p = none ∧ p.generation ≤ maxInt ∧ p.attempt ≤ maxInt then
        [.insertOutbox ⟨e.serial, p, availableAt e.now, none⟩]
      else [])
    fun _ t =>
      if maxInt < p.generation ∨ maxInt < p.attempt then .abort (.error .outOfRange)
      else if (t.out? p).isSome then .abort (.error .dupEntry)
      else next

/-- `owned`: the update must have changed one row. -/
def owned (n : ℕ) (next : Tx) : Tx := if n ≠ 1 then .abort (.error .lostLease) else next

@[simp] theorem owned_zero (next : Tx) : owned 0 next = .abort (.error .lostLease) := rfl
@[simp] theorem owned_one (next : Tx) : owned 1 next = next := rfl

/-! ## Claim -/

namespace JobRow

variable (r : JobRow)

/-- `COALESCE(lease_until>NOW(6),FALSE)`. -/
def active (now : ℕ) : Bool := r.leaseUntil.any (now < ·)

/-- `next_attempt_at>NOW(6)`. -/
def early (now : ℕ) : Bool := now < r.nextAttemptAt

/-- The job is over. -/
def terminal : Prop := r.status = .completed ∨ r.status = .dead

instance : Decidable r.terminal := inferInstanceAs (Decidable (_ ∨ _))

end JobRow

/-- The message of `Claim` for a job whose attempts are used up. -/
def exhaustedMsg : String := "Attempt budget exhausted after interrupted execution"

/-- `updated_at` follows the change of the row. -/
def JobRow.bury (now : ℕ) (r : JobRow) : JobRow :=
  { r with
    status := .dead, errorMsg := some exhaustedMsg, leaseOwner := none, leaseUntil := none
    processedAt := some (roundSeconds now), updatedAt := seconds now }

/-- Assignments are made from left to right: `retry_count` sees the new
    `attempt_count`. -/
def JobRow.claim (owner : WorkerId) (lease now : ℕ) (r : JobRow) : JobRow :=
  { r with
    status := .processing, attemptCount := r.attemptCount + 1, retryCount := r.attemptCount + 1 - 1
    leaseOwner := some owner, leaseUntil := some (now + lease), updatedAt := roundSeconds now }

/-- The job that `Claim` returns: the row as it was read, with the changes. -/
def JobRow.toJob (owner : WorkerId) (r : JobRow) : Job where
  id := r.id
  type := r.type
  payload := r.payload
  status := .processing
  retryCount := r.attemptCount + 1 - 1
  maxRetries := r.maxRetries
  priority := r.priority
  createdAt := r.createdAt
  updatedAt := r.updatedAt
  processedAt := r.processedAt
  errorMsg := r.errorMsg
  generation := r.generation
  attemptCount := r.attemptCount + 1
  leaseOwner := owner

/-- `Store.Claim`. -/
def claim (lease : ℕ) (id : JobId) (generation : ℕ) (owner : WorkerId) : Tx :=
  selectForUpdate id fun now row =>
    match row with
    | none => .abort (.noJob .absent)
    | some j =>
      if j.generation ≠ generation ∨ j.terminal then .abort (.noJob .stale)
      else if j.status = .processing ∧ j.active now then .abort (.error .busy)
      else if j.early now then .abort (.noJob .early)
      else if j.maxRetries + 1 ≤ j.attemptCount then
        updateJob id (fun now => ⟨.bury now, fun _ => rfl, fun _ => rfl⟩) <|
        insertLog id (some j.status) .dead exhaustedMsg (some owner) <|
        .commit (.noJob .exhausted)
      else if maxInt < j.attemptCount + 1 then .abort (.error .outOfRange)
      else
        updateJob id (fun now => ⟨.claim owner lease now, fun _ => rfl, fun _ => rfl⟩) <|
        insertLog id (some j.status) .processing "Attempt claimed" (some owner) <|
        .commit (.job (j.toJob owner))

/-! ## Renew and Finish -/

/-- The row is still owned by the claim that returned `j`, as far as the
    statements of `Renew` and `Finish` can tell. -/
def JobRow.ownedBy (j : Job) (now : ℕ) (r : JobRow) : Bool :=
  r.generation = j.generation && r.status = .processing && r.leaseOwner = some j.leaseOwner &&
    r.active now

/-- The lease is extended. -/
def JobRow.renew (lease now : ℕ) (r : JobRow) : JobRow :=
  { r with
    leaseUntil := some (now + lease)
    updatedAt := if r.leaseUntil = some (now + lease) then r.updatedAt else seconds now }

/-- `Store.Renew`. An update that leaves the row as it is counts no row. -/
def renew (lease : ℕ) (j : Job) : Tx :=
  updateWhere j.id (JobRow.ownedBy j) (fun now => ⟨.renew lease now, fun _ => rfl, fun _ => rfl⟩)
    (fun now r => r.leaseUntil ≠ some (now + lease)) fun n =>
  owned n <| .commit .done

/-- The lease is over, and the outcome stands in the row. -/
def JobRow.finish (status : JobStatus) (message : String) (delay now : ℕ) (r : JobRow) : JobRow :=
  { r with
    status := status, errorMsg := if message = "" then none else some message
    nextAttemptAt := now + delay, leaseOwner := none, leaseUntil := none
    processedAt := if status = .pending then none else some (roundSeconds now)
    updatedAt := roundSeconds now }

/-- `INSERT INTO job_outbox ... SELECT ... FROM jobs WHERE id=?`. -/
def insertRetry (id : JobId) (next : Tx) : Tx :=
  selectForUpdate id fun _ row =>
    match row with
    | none => next
    | some r =>
      insertOutbox ⟨id, r.generation, r.attemptCount + 1⟩ (fun _ => r.nextAttemptAt) next

/-- `Store.Finish`. The row's lease owner is set to `NULL`, so a matching row is
    always changed. -/
def finish (j : Job) (status : JobStatus) (message : String) (delay : ℕ) : Tx :=
  updateWhere j.id (JobRow.ownedBy j)
    (fun now => ⟨.finish status message delay now, fun _ => rfl, fun _ => rfl⟩)
    (fun _ _ => true) fun n =>
  owned n <|
  insertLog j.id (some .processing) status message (some j.leaseOwner) <|
  if status = .pending then insertRetry j.id (.commit .done) else .commit .done

/-! ## Dispatch -/

/-- 30 seconds. -/
def republishAfter : ℕ := 30000000

/-- The row is due, and was not published or a while ago. -/
def OutboxRow.due (now : ℕ) (o : OutboxRow) : Bool :=
  o.availableAt ≤ now && o.publishedAt.all (· + republishAfter < now)

theorem due_published {o : OutboxRow} {t u : ℕ} (h : o.due t = true) (hu : o.publishedAt = some u) :
    u + republishAfter < t := by
  rw [OutboxRow.due, hu, Option.all_some, Bool.and_eq_true] at h
  exact of_decide_eq_true h.2

/-- `ORDER BY id LIMIT 1 FOR UPDATE SKIP LOCKED`. -/
def nextDue (now : ℕ) (t : Tables) (free : Key → Bool) : Option OutboxRow :=
  (t.jobOutbox.filter fun o => o.due now && free (.out o.place)).argmin (·.id)

/-- `Store.Dispatch`. The read of the job takes no lock. -/
def dispatch : Tx :=
  .scan (fun e t free => (nextDue e.now t free).map (.out ·.place)) fun _ t picked =>
    match picked with
    | some (.out p) =>
      match t.out? p with
      | none => .abort .drained
      | some o =>
        .read fun _ t =>
          match t.job? p.jobId with
          | none => .abort (.error .noRows)
          | some job =>
            if job.generation ≠ p.generation ∨ job.terminal then
              .stmt [.out p] (fun _ _ => [.deleteOutbox p o.id]) fun _ _ => .commit (.dispatched p)
            else
              .call o fun ok =>
                if ok then
                  .stmt [.out p] (fun e _ => [.markOutbox p o.id e.now]) fun _ _ =>
                    .commit (.dispatched p)
                else .abort (.error .publishFailed)
    | _ => .abort .drained

/-! ## The statements keep to their locks -/

theorem selectForUpdate_obeys {id : JobId} {next : ℕ → Option JobRow → Tx}
    (h : ∀ now r, (next now r).Obeys) : (selectForUpdate id next).Obeys := by
  refine ⟨fun e t t' ha => ⟨rfl, ?_⟩, fun _ _ _ hw => absurd hw List.not_mem_nil,
    fun _ _ => h _ _⟩
  dsimp only
  rw [(ha (.job id) List.mem_cons_self).1]

theorem updateJob_obeys {id : JobId} {f : ℕ → JobUpdate} {next : Tx} (h : next.Obeys) :
    (updateJob id f next).Obeys := by
  refine ⟨fun _ _ _ _ => ⟨rfl, rfl⟩, fun e t w hw k hk => ?_, fun _ _ => h⟩
  obtain rfl := List.mem_singleton.1 hw
  exact hk

theorem updateWhere_obeys {id : JobId} {cond : ℕ → JobRow → Bool} {f : ℕ → JobUpdate}
    {changes : ℕ → JobRow → Bool} {next : ℕ → Tx} (h : ∀ n, (next n).Obeys) :
    (updateWhere id cond f changes next).Obeys := by
  refine ⟨fun e t t' ha => ?_, fun e t w hw k hk => ?_, fun _ _ => h _⟩
  · dsimp only
    rw [(ha (.job id) List.mem_cons_self).1]
    exact ⟨rfl, rfl⟩
  · dsimp only at hw
    split at hw
    · obtain rfl := List.mem_singleton.1 hw
      exact hk
    · exact absurd hw List.not_mem_nil

theorem insertLog_obeys {id : JobId} {fromStatus : Option JobStatus} {toStatus : JobStatus}
    {message : String} {workerId : Option WorkerId} {next : Tx} (h : next.Obeys) :
    (insertLog id fromStatus toStatus message workerId next).Obeys := by
  refine ⟨fun _ _ _ _ => ⟨rfl, rfl⟩, fun e t w hw k hk => ?_, fun _ _ => h⟩
  obtain rfl := List.mem_singleton.1 hw
  exact hk

theorem insertOutbox_obeys {p : Place} {availableAt : ℕ → ℕ} {next : Tx} (h : next.Obeys) :
    (insertOutbox p availableAt next).Obeys := by
  refine ⟨fun e t t' ha => ?_, fun e t w hw k hk => ?_, fun e t => ?_⟩
  · have hout : t.out? p = t'.out? p := ha (.out p) List.mem_cons_self
    dsimp only
    rw [hout]
    exact ⟨rfl, rfl⟩
  · dsimp only at hw
    split at hw
    · obtain rfl := List.mem_singleton.1 hw
      exact hk
    · exact absurd hw List.not_mem_nil
  · dsimp only
    split
    · trivial
    · split
      · trivial
      · exact h

theorem owned_obeys {n : ℕ} {next : Tx} (h : next.Obeys) : (owned n next).Obeys := by
  unfold owned
  split
  · trivial
  · exact h

theorem claim_obeys (lease : ℕ) (id : JobId) (generation : ℕ) (owner : WorkerId) :
    (claim lease id generation owner).Obeys := by
  refine selectForUpdate_obeys fun now row => ?_
  cases row with
  | none => trivial
  | some j =>
    simp only
    split_ifs
    · trivial
    · trivial
    · trivial
    · exact updateJob_obeys (insertLog_obeys trivial)
    · trivial
    · exact updateJob_obeys (insertLog_obeys trivial)

theorem renew_obeys (lease : ℕ) (j : Job) : (renew lease j).Obeys :=
  updateWhere_obeys fun _ => owned_obeys trivial

theorem insertRetry_obeys {id : JobId} {next : Tx} (h : next.Obeys) :
    (insertRetry id next).Obeys := by
  refine selectForUpdate_obeys fun _ row => ?_
  cases row with
  | none => exact h
  | some r => exact insertOutbox_obeys h

theorem finish_obeys (j : Job) (status : JobStatus) (message : String) (delay : ℕ) :
    (finish j status message delay).Obeys := by
  refine updateWhere_obeys fun _ => owned_obeys (insertLog_obeys ?_)
  split
  · exact insertRetry_obeys trivial
  · trivial

theorem dispatch_obeys : dispatch.Obeys := by
  refine ⟨fun _ t t' k ha => ?_, fun _ _ _ => rfl, fun _ t picked => ?_⟩
  · cases k with
    | out p =>
      have hout : t.out? p = t'.out? p := ha
      simp only [hout]
    | _ => rfl
  · dsimp only
    split
    · split
      · trivial
      · intro _ t'
        dsimp only
        split
        · trivial
        · split_ifs
          · refine ⟨fun _ _ _ _ => ⟨rfl, rfl⟩, fun _ _ w hw k hk => ?_, fun _ _ => trivial⟩
            obtain rfl := List.mem_singleton.1 hw
            exact hk
          · intro ok
            cases ok with
            | false => trivial
            | true =>
              refine ⟨fun _ _ _ _ => ⟨rfl, rfl⟩, fun _ _ w hw k hk => ?_, fun _ _ => trivial⟩
              obtain rfl := List.mem_singleton.1 hw
              exact hk
    · trivial

end ScaleQueue
