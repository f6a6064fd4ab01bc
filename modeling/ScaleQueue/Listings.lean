import Mathlib.Data.List.TakeWhile
import Mathlib.Tactic.IntervalCases
import ScaleQueue.Paging
import ScaleQueue.System

/-!
# The job listings

`GET /jobs` and `GET /jobs/dead` (`JobController.listJobs`, `JobController.listDeadJobs`):
which part of which rows a request asks for, and what it may be answered. The rows
come in descending order of `created_at` or `updated_at`, which are in seconds, and so
in any of several orders where jobs were created or changed within the same second.

The pages of a listing are complete if and only if none of them ends between two such
jobs (`listings_complete`).
-/

namespace ScaleQueue

/-! ## Requests -/

/-- `parseInt(s, 10)`; `none` is `NaN`. -/
def parseInt (s : String) : Option ℤ :=
  match s.toList.dropWhile fun c => c.toNat < 65536 && isSpace (unit c) with
  | '-' :: ds => (digits (ds.takeWhile Char.isDigit)).map fun n => -(n : ℤ)
  | '+' :: ds => (digits (ds.takeWhile Char.isDigit)).map fun n => (n : ℤ)
  | ds => (digits (ds.takeWhile Char.isDigit)).map fun n => (n : ℤ)

/-- `n || d`. -/
def orElse (d : ℤ) : Option ℤ → ℤ
  | none => d
  | some n => if n = 0 then d else n

/-- `Math.max(1, Math.min(parseInt(limit, 10) || 20, 100))`. -/
def pageLimit (limit : String) : ℕ := (max 1 (min (orElse 20 (parseInt limit)) 100)).toNat

/-- `Math.max(0, parseInt(offset, 10) || 0)`; exact also from `2 ^ 53` on, where `parseInt`
    rounds. -/
def pageOffset (offset : String) : ℕ := (max 0 (orElse 0 (parseInt offset))).toNat

/-- The query of `GET /jobs`. -/
structure ListQuery where
  status : Option String
  type : Option String
  limit : Option String
  offset : Option String

/-- The status as the column has it. -/
def JobStatus.name : JobStatus → String
  | .pending => "PENDING"
  | .processing => "PROCESSING"
  | .completed => "COMPLETED"
  | .failed => "FAILED"
  | .dead => "DEAD"

/-- The conditions on `status` and `type`, of which an empty one is none; `equal` is `=`
    on strings in the collation of the columns. -/
def ListQuery.matches (equal : String → String → Bool) (q : ListQuery) (r : JobRow) : Bool :=
  q.status.all (fun s => s = "" || equal r.status.name s) &&
    q.type.all fun s => s = "" || equal r.type s

/-! ## Responses -/

/-- The columns that `listDeadJobs` selects. -/
structure JobSummary where
  id : JobId
  type : String
  payload : Json
  status : JobStatus
  retryCount : ℕ
  maxRetries : ℕ
  priority : ℕ
  createdAt : ℕ
  updatedAt : ℕ
  processedAt : Option ℕ
  errorMsg : Option String

/-- The columns that `GET /jobs/dead` selects. -/
def JobRow.summary (r : JobRow) : JobSummary where
  id := r.id
  type := r.type
  payload := r.payload
  status := r.status
  retryCount := r.retryCount
  maxRetries := r.maxRetries
  priority := r.priority
  createdAt := r.createdAt
  updatedAt := r.updatedAt
  processedAt := r.processedAt
  errorMsg := r.errorMsg

/-- A page of a listing, and its `pagination`. -/
structure Listing (ρ : Type) where
  jobs : List ρ
  total : ℕ
  limit : ℕ
  offset : ℕ

/-- What may be answered to a query for a part of the rows, in descending order of the
    key. -/
structure Lists {ρ : Type} (key : JobRow → ℕ) (view : JobRow → ρ) (rows : List JobRow)
    (limit offset : ℕ) (l : Listing ρ) : Prop where
  jobs : ∃ out, Paging.Answers key rows out ∧ l.jobs = ((out.drop offset).take limit).map view
  total : l.total = rows.length
  limit : l.limit = limit
  offset : l.offset = offset

/-- What `GET /jobs` may be answered. -/
def ListsJobs (equal : String → String → Bool) (t : Tables) (q : ListQuery) :
    Listing JobRow → Prop :=
  Lists (·.createdAt) id (t.jobs.filter (q.matches equal)) (pageLimit (q.limit.getD "20"))
    (pageOffset (q.offset.getD "0"))

/-- What `GET /jobs/dead` may be answered. -/
def ListsDeadJobs (t : Tables) (limit offset : Option String) : Listing JobSummary → Prop :=
  Lists (·.updatedAt) JobRow.summary (t.jobs.filter (·.status = .dead))
    (pageLimit (limit.getD "undefined")) (pageOffset (offset.getD "undefined"))

/-! ## Pages -/

theorem toString_toList (n : ℕ) : (toString n).toList = Nat.toDigits 10 n :=
  String.toList_ofList

theorem isSpace_of_isDigit {c : Char} (h : c.isDigit) : isSpace (unit c) = false := by
  simp only [Char.isDigit, Bool.and_eq_true, decide_eq_true_eq, ge_iff_le,
    UInt32.le_iff_toNat_le] at h
  have h₁ : 48 ≤ c.toNat := h.1
  have h₂ : c.toNat ≤ 57 := h.2
  have hval : (unit c).val = c.toNat := Nat.mod_eq_of_lt (by omega)
  rw [isSpace, hval]
  generalize c.toNat = n at h₁ h₂
  interval_cases n <;> rfl

theorem parseInt_toString (n : ℕ) : parseInt (toString n) = some (n : ℤ) := by
  have hd := digits_toDigits n
  have hdigit : ∀ c ∈ Nat.toDigits 10 n, c.isDigit = true :=
    fun c hc => Nat.isDigit_of_mem_toDigits (by decide) (by decide) hc
  rw [parseInt, toString_toList]
  generalize Nat.toDigits 10 n = ds at hd hdigit
  have hspace : ds.dropWhile (fun c => c.toNat < 65536 && isSpace (unit c)) = ds := by
    cases ds with
    | nil => rfl
    | cons c ds => simp [isSpace_of_isDigit (hdigit c List.mem_cons_self)]
  rw [hspace]
  split
  · exact absurd (hdigit _ List.mem_cons_self) (by decide)
  · exact absurd (hdigit _ List.mem_cons_self) (by decide)
  · rw [List.takeWhile_eq_self_iff.2 hdigit, hd]
    rfl

theorem pageLimit_toString {L : ℕ} (h₁ : 1 ≤ L) (h₂ : L ≤ 100) : pageLimit (toString L) = L := by
  simp only [pageLimit, parseInt_toString, orElse]
  rw [if_neg (by omega)]
  omega

theorem pageOffset_toString (n : ℕ) : pageOffset (toString n) = n := by
  simp only [pageOffset, parseInt_toString, orElse]
  split_ifs <;> omega

/-- The pages up to the first empty one hold every row exactly once, as it is shown, and
    as many as each of them reports. -/
def Complete {ρ : Type} (view : JobRow → ρ) (rows : List JobRow) (l : ℕ → Listing ρ) : Prop :=
  ∃ m, (l m).jobs = [] ∧ (∀ k < m, (l k).jobs ≠ []) ∧
    ((List.range m).flatMap fun k => (l k).jobs).Perm (rows.map view) ∧
    ∀ k, (l k).total = ((List.range m).flatMap fun k => (l k).jobs).length

/-- The pages of a query are complete, however it is answered, if and only if none ends
    between rows with equal keys. -/
theorem complete_iff {ρ : Type} {key : JobRow → ℕ} {view : JobRow → ρ} {rows : List JobRow} {L : ℕ}
    (hL : 0 < L) (hn : (rows.map view).Nodup) :
    (∀ l : ℕ → Listing ρ, (∀ k, Lists key view rows L (k * L) (l k)) → Complete view rows l) ↔
      Paging.Clear key L rows := by
  rw [← Paging.exact_iff hL hn]
  constructor
  · intro h out hout
    obtain ⟨m, hnil, hne, hperm, -⟩ :=
      h (fun k => ⟨(Paging.page L (out k) k).map view, rows.length, L, k * L⟩)
        fun k => ⟨⟨out k, hout k, rfl⟩, rfl, rfl, rfl⟩
    refine ⟨m, List.map_eq_nil_iff.1 hnil, fun k hk => mt List.map_eq_nil_iff.2 (hne k hk), ?_⟩
    rw [List.map_flatMap]
    exact hperm
  · intro h l hl
    choose out hout hjobs using fun k => (hl k).jobs
    obtain ⟨m, hnil, hne, hperm⟩ := h out hout
    have hpage : ∀ k, (l k).jobs = (Paging.page L (out k) k).map view := hjobs
    have hall : ((List.range m).flatMap fun k => (l k).jobs).Perm (rows.map view) := by
      simpa only [hpage, List.map_flatMap] using hperm
    refine ⟨m, by rw [hpage, hnil, List.map_nil], fun k hk => ?_, hall, fun k => ?_⟩
    · rw [hpage]
      exact mt List.map_eq_nil_iff.1 (hne k hk)
    · rw [(hl k).total, hall.length_eq, List.length_map]

/-! ## Listings -/

/-- The pages of `L` jobs of a listing by status and type. -/
def pageQuery (status type : Option String) (L k : ℕ) : ListQuery :=
  ⟨status, type, some (toString L), some (toString (k * L))⟩

/-- However they are answered, the requests for the pages of `GET /jobs` list every
    matching job exactly once. -/
def JobsComplete (equal : String → String → Bool) (t : Tables) (status type : Option String)
    (L : ℕ) : Prop :=
  ∀ l : ℕ → Listing JobRow, (∀ k, ListsJobs equal t (pageQuery status type L k) (l k)) →
    Complete id (t.jobs.filter ((pageQuery status type L 0).matches equal)) l

/-- However they are answered, the requests for the pages of `GET /jobs/dead` list every
    dead job exactly once. -/
def DeadJobsComplete (t : Tables) (L : ℕ) : Prop :=
  ∀ l : ℕ → Listing JobSummary,
    (∀ k, ListsDeadJobs t (some (toString L)) (some (toString (k * L))) (l k)) →
    Complete JobRow.summary (t.jobs.filter (·.status = .dead)) l

section Listings

variable {equal : String → String → Bool} {t : Tables} {status type : Option String} {L : ℕ}

theorem jobs_nodup (t : Tables) (p : JobRow → Bool) : ((t.jobs.filter p).map (·.id)).Nodup :=
  t.primary.sublist (List.filter_sublist.map _)

theorem jobsComplete_iff (h₁ : 1 ≤ L) (h₂ : L ≤ 100) : JobsComplete equal t status type L ↔
    Paging.Clear (·.createdAt) L
      (t.jobs.filter ((pageQuery status type L 0).matches equal)) := by
  have hn : ((t.jobs.filter ((pageQuery status type L 0).matches equal)).map id).Nodup := by
    rw [List.map_id]
    exact List.Nodup.of_map _ (jobs_nodup t _)
  rw [← complete_iff h₁ hn]
  refine forall_congr' fun l => imp_congr_left (forall_congr' fun k => ?_)
  rw [ListsJobs, pageQuery, Option.getD_some, Option.getD_some, pageLimit_toString h₁ h₂,
    pageOffset_toString]
  rfl

theorem deadJobsComplete_iff (h₁ : 1 ≤ L) (h₂ : L ≤ 100) : DeadJobsComplete t L ↔
    Paging.Clear (·.updatedAt) L (t.jobs.filter (·.status = .dead)) := by
  have hn : ((t.jobs.filter (·.status = .dead)).map JobRow.summary).Nodup := by
    refine List.Nodup.of_map (·.id) ?_
    rw [List.map_map]
    exact jobs_nodup t _
  rw [← complete_iff h₁ hn]
  refine forall_congr' fun l => imp_congr_left (forall_congr' fun k => ?_)
  rw [ListsDeadJobs, Option.getD_some, Option.getD_some, pageLimit_toString h₁ h₂,
    pageOffset_toString]

end Listings

/-- The pages of a listing, requested one after the other, hold every job exactly once,
    and as many as they report, in whatever order the database answers each request:
    for `GET /jobs` if and only if no page ends between matching jobs that were created
    within the same second, and for `GET /jobs/dead` if and only if none ends between
    dead jobs that were changed last within the same second. -/
theorem listings_complete (equal : String → String → Bool) (t : Tables)
    (status type : Option String) {L : ℕ} (h₁ : 1 ≤ L) (h₂ : L ≤ 100) :
    (JobsComplete equal t status type L ↔ Paging.Clear (·.createdAt) L
      (t.jobs.filter ((pageQuery status type L 0).matches equal))) ∧
    (DeadJobsComplete t L ↔ Paging.Clear (·.updatedAt) L
      (t.jobs.filter (·.status = .dead))) :=
  ⟨jobsComplete_iff h₁ h₂, deadJobsComplete_iff h₁ h₂⟩

/-- The call `c` creates a job in session `n`, whose first attempt ends it. -/
def dying (c n now : ℕ) (id : JobId) : List Action :=
  creating c n now firstInput id ++ dispatching 0 (n + 2) now ++ claiming "w" (n + 3) now ++
    finishing "w" (n + 4) now (.failed "no" true)

/-- Two jobs that have ended dead, in different seconds. -/
def twoDead : List Action :=
  [.startWorker "w", .startDispatcher 0] ++ dying 0 0 0 firstJob ++
    .advance 2000000 :: dying 1 5 2000000 secondJob

/-- Pages of one job list each of two jobs of different seconds. -/
theorem listings_complete_first :
    let t := (State.after twoDead).1.mysql.store
    (t.jobs.filter (·.status = .dead)).length = 2 ∧
      JobsComplete (· == ·) t none none 1 ∧ DeadJobsComplete t 1 := by
  have hcreated : (((State.after twoDead).1.mysql.store.jobs.filter
      ((pageQuery none none 1 0).matches (· == ·))).map (·.createdAt)).Nodup := by decide
  have hupdated : (((State.after twoDead).1.mysql.store.jobs.filter
      (·.status = .dead)).map (·.updatedAt)).Nodup := by decide
  obtain ⟨hjobs, hdead⟩ := listings_complete (· == ·) (State.after twoDead).1.mysql.store none none
    le_rfl (by decide)
  exact ⟨by decide, hjobs.2 (Paging.clear_of_nodup hcreated),
    hdead.2 (Paging.clear_of_nodup hupdated)⟩

/-- Two jobs that were created within the same second. -/
def twoJobs : Tables :=
  (State.after (creating 0 0 0 firstInput firstJob ++
    creating 1 2 0 firstInput secondJob)).1.mysql.store

/-- Pages of one job may list the first of two jobs twice, and the second not at all. -/
theorem listings_incomplete :
    ¬ ∀ equal t status type L, 1 ≤ L → L ≤ 100 →
      JobsComplete equal t status type L ∧ DeadJobsComplete t L := by
  intro h
  have := (jobsComplete_iff le_rfl (by decide)).1
    (h (· == ·) twoJobs none none 1 le_rfl (by decide)).1
  refine this _ (List.mem_of_getElem? (i := 0) rfl) 1 ?_
  decide

end ScaleQueue
