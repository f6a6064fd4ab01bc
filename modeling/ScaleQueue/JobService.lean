import ScaleQueue.Identity
import ScaleQueue.Store

/-!
# The API's transactions

What `JobService` is called with (`CreateJobInput`, `requestKeyOf`), and the
transactions of `JobService.createJob` and `JobService.requeueJob`. A job created
under a request key carries the digest of the key, which is unique, and the
digest of the canonical text of its input.
-/

namespace ScaleQueue

open Locking

/-! ## Requests -/

/-- `z.enum` of the job types. -/
inductive JobType
  | sendEmail
  | sendNotification
  | failJob
  deriving DecidableEq

/-- The type as it stands in a request. -/
def JobType.name : JobType → String
  | .sendEmail => "send_email"
  | .sendNotification => "send_notification"
  | .failJob => "fail_job"

/-- A validated request, with its defaults filled in. -/
structure CreateJobInput where
  type : JobType
  payload : List (Text × Json)
  maxRetries : ℕ
  priority : ℕ
  payload_ne_nil : payload ≠ []
  maxRetries_le : maxRetries ≤ 10
  one_le_priority : 1 ≤ priority
  priority_le : priority ≤ 10
  distinct : (Json.obj payload).Distinct

/-- A request that leaves the rest to the defaults. -/
def CreateJobInput.defaults (type : JobType) (payload : List (Text × Json)) (h : payload ≠ [])
    (hd : (Json.obj payload).Distinct) : CreateJobInput where
  type := type
  payload := payload
  maxRetries := 3
  priority := 5
  payload_ne_nil := h
  maxRetries_le := by decide
  one_le_priority := by decide
  priority_le := by decide
  distinct := hd

/-- The validated request as the JSON value it is. -/
def CreateJobInput.toJson (input : CreateJobInput) : Json :=
  .obj [(ascii "type".toList, .str (ascii input.type.name.toList)),
    (ascii "payload".toList, .obj input.payload),
    (ascii "max_retries".toList, jsonNat input.maxRetries),
    (ascii "priority".toList, jsonNat input.priority)]

/-- The code units that `trim` removes. -/
def isSpace (c : CodeUnit) : Bool :=
  [9, 10, 11, 12, 13, 32, 0xA0, 0x1680, 0x2028, 0x2029, 0x202F, 0x205F, 0x3000, 0xFEFF].contains
    c.val || (0x2000 ≤ c.val && c.val ≤ 0x200A)

/-- The request key of a client and its `Idempotency-Key`, if the header is sent
    and accepted: `none` is answered with 400. -/
def requestKeyOf (clientId : Text) : Option Text → Option (Option Text)
  | none => some none
  | some key =>
    if key.all isSpace ∨ 128 < key.length then none
    else some (some (clientId ++ unit ':' :: key))

/-- What the API answers. -/
inductive Response
  | accepted (job : JobRow)
  | requeued (job : JobRow)
  | invalid
  | conflict
  | notFound
  | notRequeueable
  | internal

/-! ## createJob -/

/-- A job to be created, under its request key if it has one. -/
structure NewJob where
  id : JobId
  input : CreateJobInput
  /-- The digests of the request key and of the input. -/
  request : Option (Text × Text)

/-- The row inserted for a new job. -/
def NewJob.row (j : NewJob) (now : ℕ) : JobRow where
  id := j.id
  type := j.input.type.name
  payload := .obj j.input.payload
  status := .pending
  retryCount := 0
  maxRetries := j.input.maxRetries
  priority := j.input.priority
  createdAt := seconds now
  updatedAt := seconds now
  processedAt := none
  errorMsg := none
  requestKey := j.request.map Prod.fst
  requestHash := j.request.map Prod.snd
  generation := 1
  attemptCount := 0
  nextAttemptAt := now
  leaseOwner := none
  leaseUntil := none

@[simp] theorem NewJob.row_id (j : NewJob) (now : ℕ) : (j.row now).id = j.id := rfl

/-- `INSERT INTO jobs`. -/
def insertJob (j : NewJob) (next : Tx) : Tx :=
  .stmt (.job j.id :: (j.request.map fun r => .request r.1).toList)
    (fun e t => if t.Admits (j.row e.now) then [.insertJob (j.row e.now)] else [])
    fun e t => if t.Admits (j.row e.now) then next else .abort (.error .dupEntry)

/-- The transaction of `JobService.createJob`. -/
def createJob (j : NewJob) : Tx :=
  insertJob j <|
  insertLog j.id none .pending "Job created" none <|
  insertOutbox ⟨j.id, 1, 1⟩ id <|
  .commit .done

/-! ## requeueJob -/

/-- The row is pending in a new generation, with a budget as at first. -/
def JobRow.requeue (now : ℕ) (r : JobRow) : JobRow :=
  { r with
    status := .pending, retryCount := 0, attemptCount := 0, generation := r.generation + 1
    nextAttemptAt := now, leaseOwner := none, leaseUntil := none, errorMsg := none
    processedAt := none, updatedAt := seconds now }

/-- The transaction of `JobService.requeueJob`. -/
def requeueJob (jobId : JobId) : Tx :=
  selectForUpdate jobId fun _ row =>
    match row with
    | none => .abort (.error .jobNotFound)
    | some job =>
      if job.status ≠ .dead ∧ job.status ≠ .failed then .abort (.error .jobNotRequeueable)
      else if maxInt < job.generation + 1 then .abort (.error .outOfRange)
      else
        updateJob jobId (fun now => ⟨.requeue now, fun _ => rfl, fun _ => rfl⟩) <|
        insertLog jobId (some job.status) .pending "Manually requeued via API" none <|
        insertOutbox ⟨jobId, job.generation + 1, 1⟩ id <|
        .commit .done

/-! ## Reads outside of a transaction -/

/-- `SELECT * FROM jobs WHERE id = ?`. -/
def selectById (jobId : JobId) : Tx := .read fun _ t => .commit (.row (t.job? jobId))

/-- `SELECT * FROM jobs WHERE request_key = ?`. -/
def selectByRequestKey (h : Text) : Tx :=
  .read fun _ t => .commit (.row (t.jobs.find? (·.requestKey = some h)))

/-! ## The statements keep to their locks -/

theorem insertJob_obeys {j : NewJob} {next : Tx} (h : next.Obeys) : (insertJob j next).Obeys := by
  refine ⟨fun e t t' ha => ?_, fun e t w hw k hk => ?_, fun e t => ?_⟩
  · have hjob : Tables.AgreeOn (.job j.id) t t' := ha _ List.mem_cons_self
    have hadm : t.Admits (j.row e.now) ↔ t'.Admits (j.row e.now) := by
      refine and_congr (by rw [show (j.row e.now).id = j.id from rfl, hjob.1])
        (forall₂_congr fun k hk => ?_)
      have hkey : t.taken k = t'.taken k := ha (.request k) <| by
        obtain ⟨r, hr, rfl⟩ := Option.map_eq_some_iff.1 (Option.mem_def.1 hk)
        simp [hr]
      rw [hkey]
    simp only [hadm, and_self]
  · dsimp only at hw
    split at hw
    · obtain rfl := List.mem_singleton.1 hw
      have hk : k ∈ Tables.coversOf (.insertJob (j.row e.now)) := hk
      simpa [Tables.coversOf, NewJob.row, Option.map_map, Function.comp_def] using hk
    · exact absurd hw List.not_mem_nil
  · dsimp only
    split
    · exact h
    · trivial

theorem createJob_obeys (j : NewJob) : (createJob j).Obeys :=
  insertJob_obeys (insertLog_obeys (insertOutbox_obeys trivial))

theorem requeueJob_obeys (jobId : JobId) : (requeueJob jobId).Obeys := by
  refine selectForUpdate_obeys fun _ row => ?_
  cases row with
  | none => trivial
  | some job =>
    simp only
    split_ifs
    · trivial
    · trivial
    · exact updateJob_obeys (insertLog_obeys (insertOutbox_obeys trivial))

theorem selectById_obeys (jobId : JobId) : (selectById jobId).Obeys := fun _ _ => trivial

theorem selectByRequestKey_obeys (h : Text) : (selectByRequestKey h).Obeys := fun _ _ => trivial

end ScaleQueue
