import Mathlib.Data.List.Nodup
import ScaleQueue.Json
import ScaleQueue.Locking.Script

/-!
# The tables of the database

The three tables of the migrations with their unique keys: `jobs` (primary key
and `idx_request_key`), `job_audit_logs`, and `job_outbox`
(`dispatch_identity`). The keys are part of the type: tables that violate one
cannot be built.

Times are in microseconds; `TIMESTAMP` columns hold seconds. Transactions write
through `Write`, and lock what they read and write (`Key`): a job with its audit
log, a request key, or the place of an outbox row.
-/

namespace ScaleQueue

open Locking

/-- Job ids are not empty. -/
abbrev JobId := {s : String // s ≠ ""}
/-- The name of a consumer, by which leases are held. -/
abbrev WorkerId := String

/-- `status`, of a job. -/
inductive JobStatus
  | pending
  | processing
  | completed
  | failed
  | dead
  deriving DecidableEq

/-- The largest value of an `INT` column; a statement that exceeds it fails. -/
def maxInt : ℕ := 2147483647

/-- `NOW(6)` in a `TIMESTAMP` column: rounded to seconds. -/
def roundSeconds (now : ℕ) : ℕ := (now + 500000) / 1000000

/-- `NOW()` and `CURRENT_TIMESTAMP`, in seconds. -/
def seconds (now : ℕ) : ℕ := now / 1000000

/-- A row of `jobs`. -/
structure JobRow where
  id : JobId
  type : String
  payload : Json
  status : JobStatus
  retryCount : ℕ
  maxRetries : ℕ
  priority : ℕ
  createdAt : ℕ
  updatedAt : ℕ
  processedAt : Option ℕ
  errorMsg : Option String
  requestKey : Option Text
  requestHash : Option Text
  generation : ℕ
  attemptCount : ℕ
  nextAttemptAt : ℕ
  leaseOwner : Option WorkerId
  leaseUntil : Option ℕ

/-- A row of `job_audit_logs`. -/
structure LogRow where
  id : ℕ
  jobId : JobId
  fromStatus : Option JobStatus
  toStatus : JobStatus
  message : String
  workerId : Option WorkerId
  createdAt : ℕ
  deriving DecidableEq

/-- What `dispatch_identity` keeps unique. -/
structure Place where
  jobId : JobId
  generation : ℕ
  attempt : ℕ
  deriving DecidableEq

/-- A row of `job_outbox`. -/
structure OutboxRow where
  id : ℕ
  place : Place
  availableAt : ℕ
  publishedAt : Option ℕ
  deriving DecidableEq

/-- A row is found under its key. -/
theorem find?_of_mem {α κ : Type} [DecidableEq κ] {key : α → κ} {rs : List α}
    (hn : (rs.map key).Nodup) {r : α} (h : r ∈ rs) : rs.find? (key · = key r) = some r := by
  cases hf : rs.find? (key · = key r) with
  | none => simpa using List.find?_eq_none.1 hf r h
  | some q =>
    have hq : key q = key r := by simpa using List.find?_some hf
    rw [List.inj_on_of_nodup_map hn (List.mem_of_find?_eq_some hf) h hq]

/-- A row under a new key keeps the keys distinct. -/
theorem nodup_append_key {α κ : Type} {key : α → κ} {rs : List α} {r : α}
    (hn : (rs.map key).Nodup) (h : key r ∉ rs.map key) : ((rs ++ [r]).map key).Nodup := by
  rw [List.map_append, List.nodup_append]
  refine ⟨hn, List.nodup_singleton _, fun a ha b hb hab => h ?_⟩
  obtain rfl : b = key r := by simpa using hb
  exact hab ▸ ha

/-- The tables, with their unique keys. -/
structure Tables where
  jobs : List JobRow
  jobAuditLogs : List LogRow
  jobOutbox : List OutboxRow
  primary : (jobs.map (·.id)).Nodup
  idxRequestKey : (jobs.filterMap (·.requestKey)).Nodup
  dispatchIdentity : (jobOutbox.map (·.place)).Nodup

namespace Tables

variable (t : Tables)

/-- No rows at all. -/
def empty : Tables := ⟨[], [], [], by simp, by simp, by simp⟩

/-! ## Reading -/

/-- The row of a job. Ids that the collation of the column takes for the same are one
    `JobId` here. -/
def job? (id : JobId) : Option JobRow := t.jobs.find? (·.id = id)

/-- The audit log of a job, oldest entry first. -/
def logsOf (id : JobId) : List LogRow := t.jobAuditLogs.filter (·.jobId = id)

/-- The outbox rows of a job. -/
def outboxOf (id : JobId) : List OutboxRow := t.jobOutbox.filter (·.place.jobId = id)

/-- The outbox row at a place. -/
def out? (p : Place) : Option OutboxRow := t.jobOutbox.find? (·.place = p)

/-- The request key is taken. -/
def taken (h : Text) : Bool := t.jobs.any (·.requestKey = some h)

/-- The unique keys of `jobs` leave room for the row. -/
def Admits (r : JobRow) : Prop :=
  t.job? r.id = none ∧ ∀ h ∈ r.requestKey, t.taken h = false

instance (r : JobRow) : Decidable (t.Admits r) :=
  inferInstanceAs (Decidable ((t.job? r.id = none) ∧ ∀ h ∈ r.requestKey, t.taken h = false))

end Tables

/-- The changes that statements make to a job row; none changes a key. -/
structure JobUpdate where
  set : JobRow → JobRow
  id_set : ∀ r, (set r).id = r.id
  requestKey_set : ∀ r, (set r).requestKey = r.requestKey

/-! ## Writing -/

/-- A change that a statement makes to the tables. -/
inductive Write
  | insertJob (r : JobRow)
  | updateJob (id : JobId) (f : JobUpdate)
  | insertLog (l : LogRow)
  | insertOutbox (r : OutboxRow)
  /-- Delete the row `id`, which is at `p`. -/
  | deleteOutbox (p : Place) (id : ℕ)
  /-- Mark the row `id`, which is at `p`, as published. -/
  | markOutbox (p : Place) (id now : ℕ)

/-- What a statement locks. -/
inductive Key
  | job (id : JobId)
  | request (h : Text)
  | out (p : Place)
  deriving DecidableEq

/-- The job row, updated if it is the job `id`. -/
def JobUpdate.on (f : JobUpdate) (id : JobId) (r : JobRow) : JobRow :=
  if r.id = id then f.set r else r

/-- The outbox row, marked if it is the row `id` at `p`. -/
def OutboxRow.mark (p : Place) (id now : ℕ) (r : OutboxRow) : OutboxRow :=
  if r.id = id ∧ r.place = p then { r with publishedAt := some now } else r

@[simp] theorem JobUpdate.on_id (f : JobUpdate) (id : JobId) (r : JobRow) :
    (f.on id r).id = r.id := by
  unfold JobUpdate.on
  split
  · exact f.id_set r
  · rfl

@[simp] theorem JobUpdate.on_requestKey (f : JobUpdate) (id : JobId) (r : JobRow) :
    (f.on id r).requestKey = r.requestKey := by
  unfold JobUpdate.on
  split
  · exact f.requestKey_set r
  · rfl

@[simp] theorem OutboxRow.mark_place (p : Place) (id now : ℕ) (r : OutboxRow) :
    (r.mark p id now).place = r.place := by
  unfold OutboxRow.mark
  split <;> rfl

namespace Tables

variable {t : Tables}

theorem job?_id {id : JobId} {r : JobRow} (h : t.job? id = some r) : r.id = id := by
  simpa using List.find?_some h

theorem job?_mem {id : JobId} {r : JobRow} (h : t.job? id = some r) : r ∈ t.jobs :=
  List.mem_of_find?_eq_some h

theorem out?_place {p : Place} {r : OutboxRow} (h : t.out? p = some r) : r.place = p := by
  simpa using List.find?_some h

theorem out?_mem {p : Place} {r : OutboxRow} (h : t.out? p = some r) : r ∈ t.jobOutbox :=
  List.mem_of_find?_eq_some h

theorem job?_eq_none {id : JobId} : t.job? id = none ↔ id ∉ t.jobs.map (·.id) := by
  simp [job?]

theorem out?_eq_none {p : Place} : t.out? p = none ↔ p ∉ t.jobOutbox.map (·.place) := by
  simp [out?]

theorem taken_eq_false {h : Text} : t.taken h = false ↔ h ∉ t.jobs.filterMap (·.requestKey) := by
  simp [taken]

/-- A row of the table is the one found under its id. -/
theorem job?_of_mem {r : JobRow} (h : r ∈ t.jobs) : t.job? r.id = some r :=
  find?_of_mem t.primary h

/-- A row of the table is the one found at its place. -/
theorem out?_of_mem {r : OutboxRow} (h : r ∈ t.jobOutbox) : t.out? r.place = some r :=
  find?_of_mem t.dispatchIdentity h

theorem out?_eq_some {p : Place} {r : OutboxRow} :
    t.out? p = some r ↔ r ∈ t.jobOutbox ∧ r.place = p :=
  ⟨fun h => ⟨out?_mem h, out?_place h⟩, fun ⟨hr, hp⟩ => hp ▸ out?_of_mem hr⟩

/-- The tables after a write. An insertion that a unique key refuses changes
    nothing (its statement fails before it writes). -/
def apply (t : Tables) : Write → Tables
  | .insertJob r =>
    if h : t.Admits r then
      { t with
        jobs := t.jobs ++ [r]
        primary := nodup_append_key t.primary (job?_eq_none.1 h.1)
        idxRequestKey := by
          rw [List.filterMap_append]
          cases hk : r.requestKey with
          | none => simpa [hk] using t.idxRequestKey
          | some k =>
            have := taken_eq_false.1 (h.2 k hk)
            rw [List.nodup_append]
            exact ⟨t.idxRequestKey, by simp [hk], fun a ha b hb hab => this (by simp_all)⟩ }
    else t
  | .updateJob id f =>
    { t with
      jobs := t.jobs.map (f.on id)
      primary := by simpa [Function.comp_def] using t.primary
      idxRequestKey := by simpa [List.filterMap_map, Function.comp_def] using t.idxRequestKey }
  | .insertLog l => { t with jobAuditLogs := t.jobAuditLogs ++ [l] }
  | .insertOutbox r =>
    if h : t.out? r.place = none then
      { t with
        jobOutbox := t.jobOutbox ++ [r]
        dispatchIdentity := nodup_append_key t.dispatchIdentity (out?_eq_none.1 h) }
    else t
  | .deleteOutbox p id =>
    { t with
      jobOutbox := t.jobOutbox.filter fun r => ¬(r.id = id ∧ r.place = p)
      dispatchIdentity := t.dispatchIdentity.sublist (List.filter_sublist.map _) }
  | .markOutbox p id now =>
    { t with
      jobOutbox := t.jobOutbox.map (·.mark p id now)
      dispatchIdentity := by simpa [Function.comp_def] using t.dispatchIdentity }

/-! ### What each write changes -/

section Reads

variable (t : Tables)

theorem job?_insertJob (r : JobRow) (id : JobId) :
    (t.apply (.insertJob r)).job? id =
      if t.Admits r ∧ r.id = id then some r else t.job? id := by
  by_cases h : t.Admits r
  · by_cases hid : r.id = id
    · subst hid
      have hnone : t.jobs.find? (·.id = r.id) = none := h.1
      simp [apply, h, job?, List.find?_append, hnone]
    · simp [apply, h, hid, job?, List.find?_append]
  · simp [apply, h]

theorem job?_updateJob (id : JobId) (f : JobUpdate) (id' : JobId) :
    (t.apply (.updateJob id f)).job? id' =
      if id' = id then (t.job? id).map f.set else t.job? id' := by
  have hcomp :
      ((fun r : JobRow => decide (r.id = id')) ∘ f.on id) = fun r => decide (r.id = id') := by
    funext r; simp
  simp only [apply, job?, List.find?_map, hcomp]
  split
  · rename_i h
    subst h
    cases hf : t.jobs.find? (·.id = id') with
    | none => rfl
    | some r => simp [JobUpdate.on, show r.id = id' by simpa using List.find?_some hf]
  · rename_i h
    cases hf : t.jobs.find? (·.id = id') with
    | none => rfl
    | some r =>
      have hr : r.id = id' := by simpa using List.find?_some hf
      simp [JobUpdate.on, hr, h]

@[simp] theorem job?_insertLog (l : LogRow) (id : JobId) :
    (t.apply (.insertLog l)).job? id = t.job? id := rfl

@[simp] theorem job?_insertOutbox (r : OutboxRow) (id : JobId) :
    (t.apply (.insertOutbox r)).job? id = t.job? id := by
  by_cases h : t.out? r.place = none <;> simp [apply, h, job?]

@[simp] theorem job?_deleteOutbox (p : Place) (i : ℕ) (id : JobId) :
    (t.apply (.deleteOutbox p i)).job? id = t.job? id := rfl

@[simp] theorem job?_markOutbox (p : Place) (i now : ℕ) (id : JobId) :
    (t.apply (.markOutbox p i now)).job? id = t.job? id := rfl

@[simp] theorem logs_insertJob (r : JobRow) :
    (t.apply (.insertJob r)).jobAuditLogs = t.jobAuditLogs := by
  by_cases h : t.Admits r <;> simp [apply, h]

@[simp] theorem logs_updateJob (id : JobId) (f : JobUpdate) :
    (t.apply (.updateJob id f)).jobAuditLogs = t.jobAuditLogs := rfl

@[simp] theorem logs_insertLog (l : LogRow) :
    (t.apply (.insertLog l)).jobAuditLogs = t.jobAuditLogs ++ [l] := rfl

@[simp] theorem logs_insertOutbox (r : OutboxRow) :
    (t.apply (.insertOutbox r)).jobAuditLogs = t.jobAuditLogs := by
  by_cases h : t.out? r.place = none <;> simp [apply, h]

@[simp] theorem logs_deleteOutbox (p : Place) (i : ℕ) :
    (t.apply (.deleteOutbox p i)).jobAuditLogs = t.jobAuditLogs := rfl

@[simp] theorem logs_markOutbox (p : Place) (i now : ℕ) :
    (t.apply (.markOutbox p i now)).jobAuditLogs = t.jobAuditLogs := rfl

@[simp] theorem outbox_insertJob (r : JobRow) :
    (t.apply (.insertJob r)).jobOutbox = t.jobOutbox := by
  by_cases h : t.Admits r <;> simp [apply, h]

@[simp] theorem outbox_updateJob (id : JobId) (f : JobUpdate) :
    (t.apply (.updateJob id f)).jobOutbox = t.jobOutbox := rfl

@[simp] theorem outbox_insertLog (l : LogRow) :
    (t.apply (.insertLog l)).jobOutbox = t.jobOutbox := rfl

theorem outbox_insertOutbox {r : OutboxRow} (h : t.out? r.place = none) :
    (t.apply (.insertOutbox r)).jobOutbox = t.jobOutbox ++ [r] := by
  simp [apply, h]

@[simp] theorem outbox_deleteOutbox (p : Place) (i : ℕ) :
    (t.apply (.deleteOutbox p i)).jobOutbox =
      t.jobOutbox.filter fun r => ¬(r.id = i ∧ r.place = p) := rfl

@[simp] theorem outbox_markOutbox (p : Place) (i now : ℕ) :
    (t.apply (.markOutbox p i now)).jobOutbox = t.jobOutbox.map (·.mark p i now) := rfl

end Reads

/-! ## What the locks protect -/

/-- The tables agree on what the lock protects. -/
def AgreeOn : Key → Tables → Tables → Prop
  | .job id, t, t' => t.job? id = t'.job? id ∧ t.logsOf id = t'.logsOf id
  | .request h, t, t' => t.taken h = t'.taken h
  | .out p, t, t' => t.out? p = t'.out? p

instance : Lockable Tables Key where
  Agree := AgreeOn
  equiv k := by
    cases k with
    | job id => exact ⟨fun _ => ⟨rfl, rfl⟩, fun h => ⟨h.1.symm, h.2.symm⟩,
        fun h h' => ⟨h.1.trans h'.1, h.2.trans h'.2⟩⟩
    | request h => exact ⟨fun _ => rfl, Eq.symm, Eq.trans⟩
    | out p => exact ⟨fun _ => rfl, Eq.symm, Eq.trans⟩

/-- The locks protecting what a write changes. -/
def coversOf : Write → List Key
  | .insertJob r => .job r.id :: (r.requestKey.map .request).toList
  | .updateJob id _ => [.job id]
  | .insertLog l => [.job l.jobId]
  | .insertOutbox r => [.out r.place]
  | .deleteOutbox p _ => [.out p]
  | .markOutbox p _ _ => [.out p]

theorem taken_apply (t : Tables) (w : Write) (h : Text) :
    (t.apply w).taken h = match w with
      | .insertJob r => t.taken h || (decide (t.Admits r) && decide (r.requestKey = some h))
      | _ => t.taken h := by
  cases w with
  | insertJob r =>
    by_cases ha : t.Admits r <;> simp [apply, ha, taken]
  | updateJob id f => simp [apply, taken, List.any_map, Function.comp_def]
  | insertLog l => rfl
  | insertOutbox r => by_cases h : t.out? r.place = none <;> simp [apply, h, taken]
  | deleteOutbox p i => rfl
  | markOutbox p i now => rfl

theorem out?_insertOutbox (t : Tables) (r : OutboxRow) (p : Place) :
    (t.apply (.insertOutbox r)).out? p =
      if t.out? r.place = none ∧ r.place = p then some r else t.out? p := by
  by_cases h : t.out? r.place = none
  · rw [out?, outbox_insertOutbox t h, List.find?_append]
    by_cases hp : r.place = p
    · subst hp
      have hnone : t.jobOutbox.find? (·.place = r.place) = none := h
      simp [h, hnone]
    · simp [hp, out?]
  · simp [apply, h]

theorem out?_deleteOutbox (t : Tables) (p : Place) (i : ℕ) (q : Place) :
    (t.apply (.deleteOutbox p i)).out? q =
      if q = p then (t.out? p).filter (·.id ≠ i) else t.out? q := by
  ext r
  split
  · rename_i hq
    subst hq
    simp only [out?_eq_some, outbox_deleteOutbox, Option.filter_eq_some_iff]
    simp only [List.mem_filter, decide_eq_true_eq]
    grind
  · simp only [out?_eq_some, outbox_deleteOutbox, List.mem_filter, decide_eq_true_eq]
    grind

theorem out?_markOutbox (t : Tables) (p : Place) (i now : ℕ) (q : Place) :
    (t.apply (.markOutbox p i now)).out? q = (t.out? q).map (·.mark p i now) := by
  have hplace : (fun r : OutboxRow => decide (r.place = q)) ∘ OutboxRow.mark p i now =
      fun r : OutboxRow => decide (r.place = q) := by
    funext r
    simp
  refine (List.find?_map ..).trans ?_
  rw [hplace]
  rfl

theorem out?_of_outbox {t t' : Tables} (h : t.jobOutbox = t'.jobOutbox) (p : Place) :
    t.out? p = t'.out? p := by
  rw [out?, out?, h]

@[simp] theorem out?_insertJob (t : Tables) (r : JobRow) (p : Place) :
    (t.apply (.insertJob r)).out? p = t.out? p := out?_of_outbox (by simp) p

@[simp] theorem out?_updateJob (t : Tables) (id : JobId) (f : JobUpdate) (p : Place) :
    (t.apply (.updateJob id f)).out? p = t.out? p := rfl

@[simp] theorem out?_insertLog (t : Tables) (l : LogRow) (p : Place) :
    (t.apply (.insertLog l)).out? p = t.out? p := rfl

/-- A write leaves alone what other locks protect. -/
theorem agree_frame {w : Write} {k : Key} (t : Tables) (hk : k ∉ coversOf w) :
    AgreeOn k (t.apply w) t := by
  cases k with
  | job id =>
    refine ⟨?_, ?_⟩
    · cases w with
      | insertJob r =>
        rw [job?_insertJob, if_neg fun h => hk (by simp [coversOf, h.2])]
      | updateJob id' f => rw [job?_updateJob, if_neg fun h => hk (by simp [coversOf, h])]
      | _ => simp
    · cases w with
      | insertLog l =>
        have : l.jobId ≠ id := fun h => hk (by simp [coversOf, h])
        simp [logsOf, this]
      | _ => simp [logsOf]
  | request h =>
    rw [AgreeOn, taken_apply]
    cases w with
    | insertJob r =>
      have : r.requestKey ≠ some h := fun e => hk (by simp [coversOf, e])
      simp [this]
    | _ => rfl
  | out p =>
    cases w with
    | insertOutbox r =>
      rw [AgreeOn, out?_insertOutbox, if_neg fun h => hk (by simp [coversOf, h.2])]
    | deleteOutbox p' i =>
      rw [AgreeOn, out?_deleteOutbox, if_neg fun h => hk (by simp [coversOf, h])]
    | markOutbox p' i now =>
      rw [AgreeOn, out?_markOutbox]
      cases hp : t.out? p with
      | none => rfl
      | some r =>
        have : r.place ≠ p' := fun e => hk (by simp [coversOf, ← e, out?_place hp])
        simp [OutboxRow.mark, this]
    | _ => exact out?_of_outbox (by simp) p

/-- Tables that agree on what a write's locks protect agree on it afterwards. -/
theorem agree_congr {w : Write} {t t' : Tables} (h : ∀ k ∈ coversOf w, AgreeOn k t t') :
    ∀ k ∈ coversOf w, AgreeOn k (t.apply w) (t'.apply w) := by
  intro k hk
  cases w with
  | insertJob r =>
    have hjob : AgreeOn (.job r.id) t t' := h _ (by simp [coversOf])
    have hkey : ∀ k ∈ r.requestKey, t.taken k = t'.taken k :=
      fun k hk => h (.request k) (by simp [coversOf, Option.mem_def.1 hk])
    have hadm : t.Admits r ↔ t'.Admits r := by
      refine and_congr (by rw [hjob.1]) (forall₂_congr fun k hk => by rw [hkey k hk])
    rcases List.mem_cons.1 hk with rfl | hk
    · refine ⟨?_, by simpa [logsOf] using hjob.2⟩
      rw [job?_insertJob, job?_insertJob, hjob.1, if_congr (and_congr_left' hadm) rfl rfl]
    · obtain ⟨k, hrk, rfl⟩ : ∃ k, r.requestKey = some k ∧ Key.request k = _ := by simpa using hk
      simp only [AgreeOn, taken_apply, hkey k hrk, decide_eq_decide.2 hadm]
  | updateJob id f =>
    obtain rfl := List.mem_singleton.1 hk
    have hjob : AgreeOn (.job id) t t' := h _ (by simp [coversOf])
    exact ⟨by simp [job?_updateJob, hjob.1], by simpa [logsOf] using hjob.2⟩
  | insertLog l =>
    obtain rfl := List.mem_singleton.1 hk
    have hjob : AgreeOn (.job l.jobId) t t' := h _ (by simp [coversOf])
    exact ⟨by simpa using hjob.1, by simpa [logsOf] using hjob.2⟩
  | insertOutbox r =>
    obtain rfl := List.mem_singleton.1 hk
    have hout : t.out? r.place = t'.out? r.place := h (.out r.place) (by simp [coversOf])
    simp only [AgreeOn, out?_insertOutbox, hout]
  | deleteOutbox p i =>
    obtain rfl := List.mem_singleton.1 hk
    have hout : t.out? p = t'.out? p := h (.out p) (by simp [coversOf])
    simp only [AgreeOn, out?_deleteOutbox, hout]
  | markOutbox p i now =>
    obtain rfl := List.mem_singleton.1 hk
    have hout : t.out? p = t'.out? p := h (.out p) (by simp [coversOf])
    simp only [AgreeOn, out?_markOutbox, hout]

instance : Writable Write Tables Key where
  apply := apply
  covers := coversOf
  frame := agree_frame
  congr := agree_congr

end Tables

/-! ## What the tables say about one job -/

/-- The row, the audit log and the outbox rows of one job. -/
structure JobView where
  row : Option JobRow
  logs : List LogRow
  outbox : List OutboxRow

namespace Tables

variable (t : Tables)

/-- What the tables hold of a job. -/
def view (id : JobId) : JobView := ⟨t.job? id, t.logsOf id, t.outboxOf id⟩

theorem view_row (id : JobId) : (t.view id).row = t.job? id := rfl
theorem view_outbox (id : JobId) : (t.view id).outbox = t.outboxOf id := rfl

theorem view_empty (id : JobId) : empty.view id = ⟨none, [], []⟩ := rfl

theorem mem_outboxOf {id : JobId} {o : OutboxRow} :
    o ∈ t.outboxOf id ↔ o ∈ t.jobOutbox ∧ o.place.jobId = id := by
  simp [outboxOf]

@[simp] theorem view_insertJob {r : JobRow} {id : JobId} (h : t.Admits r) (hid : r.id = id) :
    (t.apply (.insertJob r)).view id = { t.view id with row := some r } := by
  simp [view, job?_insertJob, h, hid, logsOf, outboxOf]

@[simp] theorem view_updateJob (id : JobId) (f : JobUpdate) :
    (t.apply (.updateJob id f)).view id = { t.view id with row := (t.view id).row.map f.set } := by
  simp [view, job?_updateJob, logsOf, outboxOf]

@[simp] theorem view_insertLog {l : LogRow} {id : JobId} (hid : l.jobId = id) :
    (t.apply (.insertLog l)).view id = { t.view id with logs := (t.view id).logs ++ [l] } := by
  simp [view, logsOf, outboxOf, hid]

@[simp] theorem view_insertOutbox {r : OutboxRow} {id : JobId} (h : t.out? r.place = none)
    (hid : r.place.jobId = id) :
    (t.apply (.insertOutbox r)).view id =
      { t.view id with outbox := (t.view id).outbox ++ [r] } := by
  simp [view, logsOf, outboxOf, outbox_insertOutbox t h, hid]

@[simp] theorem view_deleteOutbox (p : Place) (i : ℕ) (id : JobId) :
    (t.apply (.deleteOutbox p i)).view id =
      { t.view id with
        outbox := (t.view id).outbox.filter fun r => ¬(r.id = i ∧ r.place = p) } := by
  simp [view, logsOf, outboxOf, List.filter_filter, Bool.and_comm]

@[simp] theorem view_markOutbox (p : Place) (i now : ℕ) (id : JobId) :
    (t.apply (.markOutbox p i now)).view id =
      { t.view id with outbox := (t.view id).outbox.map (·.mark p i now) } := by
  simp [view, logsOf, outboxOf, List.filter_map, Function.comp_def]

end Tables

/-- The job that a write is about. -/
def Write.jobId : Write → JobId
  | .insertJob r => r.id
  | .updateJob id _ => id
  | .insertLog l => l.jobId
  | .insertOutbox r => r.place.jobId
  | .deleteOutbox p _ => p.jobId
  | .markOutbox p _ _ => p.jobId

theorem Tables.view_apply_of_ne (t : Tables) {w : Write} {id : JobId} (h : w.jobId ≠ id) :
    (t.apply w).view id = t.view id := by
  have hjob : AgreeOn (.job id) (t.apply w) t := by
    refine agree_frame t fun hk => h ?_
    cases w <;> simp_all [coversOf, Write.jobId]
  have hout : (t.apply w).outboxOf id = t.outboxOf id := by
    cases w with
    | insertOutbox r =>
      by_cases hn : t.out? r.place = none
      · have : r.place.jobId ≠ id := h
        simp [outboxOf, outbox_insertOutbox t hn, this]
      · simp [apply, hn]
    | deleteOutbox p i =>
      refine (congrArg JobView.outbox (t.view_deleteOutbox p i id)).trans ?_
      refine List.filter_eq_self.2 fun r hr => ?_
      have : r.place ≠ p := fun e => h (e ▸ ((t.mem_outboxOf).1 hr).2)
      simp [this]
    | markOutbox p i now =>
      refine (congrArg JobView.outbox (t.view_markOutbox p i now id)).trans ?_
      refine (List.map_congr_left fun r hr => ?_).trans (List.map_id _)
      have : r.place ≠ p := fun e => h (e ▸ ((t.mem_outboxOf).1 hr).2)
      simp [OutboxRow.mark, this]
    | _ => simp [outboxOf]
  simp only [view, hjob.1, hjob.2, hout]

@[simp] theorem apply_eq (t : Tables) (w : Write) : Writable.apply t w = t.apply w := rfl

/-- Writes about other jobs leave alone what the tables say about a job. -/
theorem Tables.view_applyAll_of_ne (t : Tables) {ws : List Write} {id : JobId}
    (h : ∀ w ∈ ws, w.jobId ≠ id) : (applyAll t ws).view id = t.view id := by
  induction ws generalizing t with
  | nil => rfl
  | cons w ws ih =>
    rw [applyAll_cons, ih _ fun w' hw' => h w' (List.mem_cons_of_mem _ hw'), apply_eq,
      t.view_apply_of_ne (h w List.mem_cons_self)]

end ScaleQueue
