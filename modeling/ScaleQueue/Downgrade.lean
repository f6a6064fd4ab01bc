import ScaleQueue.Progress
import ScaleQueue.Rows
import ScaleQueue.Upgrade

/-!
# The durable-delivery downgrade

The down migration (`Tables.down`) drops the outbox and the columns that came with it, and
with them what the workers rely on: generations, leases, the count of attempts. What
survives is `retry_count`, which lags behind the attempts by one. An upgrade that follows
makes up for this if the job was in progress; a job that waited for a retry gets the
attempt back.
-/

namespace ScaleQueue

open Locking

/-- `ALTER TABLE jobs DROP COLUMN ...`. -/
def JobRow.legacy (r : JobRow) : LegacyRow where
  id := r.id
  type := r.type
  payload := r.payload
  status := r.status
  retryCount := r.retryCount
  maxRetries := r.maxRetries
  priority := r.priority
  createdAt := r.createdAt
  updatedAt := r.updatedAt
  processedAt := r.processedAt
  errorMsg := r.errorMsg

/-- The down migration. -/
def Tables.down (t : Tables) (foreign : ∀ l ∈ t.jobAuditLogs, l.jobId ∈ t.jobs.map (·.id)) :
    LegacyTables where
  jobs := t.jobs.map JobRow.legacy
  jobAuditLogs := t.jobAuditLogs
  primary := by simpa [JobRow.legacy, Function.comp_def] using t.primary
  foreign := by simpa [JobRow.legacy, Function.comp_def] using foreign

/-- The columns that are left of a job that was over are as they were. -/
theorem upgraded_legacy_over {q : LegacyRow} (t₁ t₂ t₄ : ℕ) (h : ¬ q.live) :
    (q.upgraded t₁ t₂ t₄).legacy = q := by
  rw [upgraded_over t₁ t₂ t₄ h]
  rfl

/-- Of any other job, only the status and the time of the last change are new. -/
theorem upgraded_legacy_live {q : LegacyRow} (t₁ t₂ t₄ : ℕ) (h : q.live) :
    (q.upgraded t₁ t₂ t₄).legacy =
      { q with status := .pending, updatedAt := (q.upgraded t₁ t₂ t₄).updatedAt } := by
  rw [LegacyRow.upgraded, JobRow.preserve, if_pos (alter_nonterminal.2 h), JobRow.reset]
  rcases h with h | h <;> simp [LegacyRow.alter, JobRow.legacy, h]

theorem upgraded_unleased {q : LegacyRow} (t₁ t₂ t₄ : ℕ) :
    (q.upgraded t₁ t₂ t₄).leaseOwner = none ∧ (q.upgraded t₁ t₂ t₄).leaseUntil = none := by
  by_cases h : q.live
  · exact (upgraded_live t₁ t₂ t₄ h).2.2.2.2.2
  · rw [upgraded_over t₁ t₂ t₄ h]
    exact ⟨rfl, rfl⟩

theorem legacy_not_live {r : JobRow} (hover : r.terminal) : ¬ r.legacy.live := by
  rintro (hst | hst) <;> rcases hover with hst' | hst' <;>
    exact absurd (hst.symm.trans hst') (by simp)

theorem legacy_live {r : JobRow} (hlive : ¬ r.terminal) (hfailed : r.status ≠ .failed) :
    r.legacy.live := by
  show r.status = .pending ∨ r.status = .processing
  cases hst : r.status with
  | pending => exact .inl rfl
  | processing => exact .inr rfl
  | completed => exact absurd (.inl hst) hlive
  | dead => exact absurd (.inr hst) hlive
  | failed => exact absurd hst hfailed

/-- The columns that are left tell the attempts, but for one if the job waits for a retry. -/
theorem Coherent.legacy_attempts {r : JobRow} {t : ℕ} (hc : Coherent r t)
    (hlive : r.legacy.live) :
    r.legacy.attempts = if r.status = .pending then r.attemptCount - 1 else r.attemptCount := by
  have hretries := hc.retries
  show r.retryCount + (if r.status = .processing then 1 else 0) = _
  rcases hlive with hst | hst
  · have hst : r.status = .pending := hst
    rw [if_pos hst, if_neg (by simp [hst]), hretries, Nat.add_zero]
  · have hst : r.status = .processing := hst
    have hone := (hc.attempted hst).1
    rw [if_pos hst, if_neg (by simp [hst])]
    omega

section Runs

variable {cfg : Config} {s₀ s : State} {es : List Event} {id : JobId}

/-- The entries of the audit log are about jobs. -/
theorem Run.foreign (h : Run cfg s₀ es s) (h₀ : Initial s₀) :
    ∀ l ∈ s.mysql.store.jobAuditLogs, l.jobId ∈ s.mysql.store.jobs.map (·.id) := by
  intro l hl
  cases hr : s.mysql.store.job? l.jobId with
  | some r => exact List.mem_map.2 ⟨r, Tables.job?_mem hr, Tables.job?_id hr⟩
  | none =>
    have habsent := (((h.kept h₀).sound l.jobId).absent hr).1
    have hmem : l ∈ (s.mysql.store.view l.jobId).logs :=
      List.mem_filter.2 ⟨hl, by simp⟩
    rw [habsent] at hmem
    cases hmem

/-- A job that is over stays as it is unless it is requeued. -/
theorem Life.over {lease t₀ t : ℕ} {v₀ v : JobView} {h : List (Op × Answer)}
    (hl : Life lease id v₀ t₀ h v t) {r : JobRow} (hr : v₀.row = some r) (hover : r.terminal)
    (hnone : requeues h = 0) : v.row = some r ∧ claims h = [] := by
  induction hl with
  | start => exact ⟨hr, rfl⟩
  | wait _ _ ih => exact ih hnone
  | @change h v v' t lo hi op a _ hchange _ ih =>
    rw [requeues_append, Nat.add_eq_zero_iff] at hnone
    obtain ⟨hrow, hclaims⟩ := ih hnone.1
    have owned {j : Job} {q : JobRow} {t : ℕ} (hq : some q = some r) (hown : q.ownedBy j t = true) :
        False := by
      obtain rfl := Option.some.inj hq
      have hst := (ownedBy_iff.1 hown).2.1
      rcases hover with hst' | hst' <;> simp [hst] at hst'
    rw [claims_append, hclaims]
    cases hchange with
    | claimed _ hclaim => exact absurd (Option.some.inj hrow ▸ hover) hclaim.live
    | exhausted _ hclaim => exact absurd (Option.some.inj hrow ▸ hover) hclaim.live
    | renewed _ _ hown => exact (owned hrow hown).elim
    | finished _ _ _ hown => exact (owned hrow hown).elim
    | retried _ _ hown => exact (owned hrow hown).elim
    | created => cases hrow
    | requeued => exact absurd hnone.2 (by simp [requeues, isRequeue])
    | _ => exact ⟨hrow, rfl⟩

/-- An upgraded job is claimed at most once for each attempt that it has left. -/
theorem Run.claims_upgraded (h : Run cfg s₀ es s) (h₀ : Initial s₀) {q : LegacyRow}
    {t₁ t₂ t₄ : ℕ} (hq : q.live)
    (hrow : s₀.mysql.store.job? q.id = some (q.upgraded t₁ t₂ t₄)) :
    claimsIn 1 (history q.id (closings es)) + q.attempts ≤ max (q.maxRetries + 1) q.attempts := by
  obtain ⟨-, hatt, hmax, hgen, -, -, -⟩ := upgraded_live t₁ t₂ t₄ hq
  have hlife := h.life h₀ q.id
  have horigin : Origin (q.upgraded t₁ t₂ t₄).attemptCount (s₀.mysql.store.view q.id) :=
    ⟨h₀.sound q.id, fun hnone => absurd (hrow.symm.trans hnone) (by simp),
      fun r hr => by rw [← Option.some.inj (hrow.symm.trans hr), hgen],
      fun r hr => by rw [← Option.some.inj (hrow.symm.trans hr)]⟩
  obtain ⟨r, hr, hmax'⟩ := hlife.maxRetries hrow
  have htally := hlife.tally horigin
  rw [hr] at htally
  have hbudget := htally.budget 1
  rwa [if_pos rfl, hmax', hmax, hatt] at hbudget

end Runs

/-- What a downgrade leaves can always be upgraded again. A job that was over is then as it
    was, in the columns that are left, until it is requeued. Any other is pending in its
    first generation, otherwise as it was in these columns, without a lease or a request key,
    due, and with the attempts it has used up, of which one is given back if it waited for a
    retry: so that it is claimed at most once more than its budget allows, before and
    after. -/
theorem downgrade_gives_back {cfg : Config} {s₀ s : State} {es : List Event} (h₀ : Initial s₀)
    (h : Run cfg s₀ es s) (hempty : ∀ id, s₀.mysql.store.job? id = none) :
    (∀ t₁ t₂ t₃ t₄, ((s.mysql.store.down (h.foreign h₀)).up t₁ t₂ t₃ t₄).isSome) ∧
    ∀ t₁ t₂ t₃ t₄ s₁ s' es', s.mysql.clock ≤ t₁ → t₁ ≤ t₂ → t₂ ≤ t₃ → t₃ ≤ t₄ →
      t₄ ≤ s₁.mysql.clock → Initial s₁ → Run cfg s₁ es' s' →
      (s.mysql.store.down (h.foreign h₀)).up t₁ t₂ t₃ t₄ = some s₁.mysql.store →
      ∀ r ∈ s.mysql.store.jobs, ∃ r₁, s₁.mysql.store.job? r.id = some r₁ ∧
        r₁.generation = 1 ∧ r₁.requestKey = none ∧ r₁.leaseOwner = none ∧ r₁.leaseUntil = none ∧
        (r.terminal → r₁.legacy = r.legacy ∧ s₁.mysql.store.outboxOf r.id = [] ∧
          (requeues (history r.id (closings es')) = 0 →
            s'.mysql.store.job? r.id = some r₁ ∧ claims (history r.id (closings es')) = [])) ∧
        (¬ r.terminal →
          r₁.legacy = { r.legacy with status := .pending, updatedAt := r₁.updatedAt } ∧
          r₁.attemptCount = (if r.status = .pending then r.attemptCount - 1 else r.attemptCount) ∧
          (∃ o, s₁.mysql.store.outboxOf r.id = [o] ∧ r₁.nextAttemptAt ≤ o.availableAt ∧
            o.availableAt ≤ s₁.mysql.clock ∧ o.place = ⟨r.id, 1, r₁.attemptCount + 1⟩) ∧
          claimsIn r.generation (history r.id (closings es)) +
            claimsIn 1 (history r.id (closings es')) ≤
              r.maxRetries + 1 + (if r.status = .pending then 1 else 0)) := by
  have hrow {r : JobRow} (hr : r ∈ s.mysql.store.jobs) : s.mysql.store.job? r.id = some r :=
    Tables.job?_of_mem hr
  have htally {r : JobRow} (hr : r ∈ s.mysql.store.jobs) := h.tally h₀ (hempty r.id) (hrow hr)
  have hcoherent {r : JobRow} (hr : r ∈ s.mysql.store.jobs) :=
    h.coherent h₀ (hempty r.id) (hrow hr)
  have hbounded {r : JobRow} (hr : r ∈ s.mysql.store.jobs) :
      r.status ≠ .failed ∧ r.maxRetries ≤ 10 :=
    State.Reached.bounded ⟨s₀, es, h₀, hempty r.id, h⟩ (hrow hr)
  refine ⟨fun t₁ t₂ t₃ t₄ => ?_,
    fun t₁ t₂ t₃ t₄ s₁ s' es' _ h₁₂ h₂₃ h₃₄ hclock h₁ h' hup r hr => ?_⟩
  · -- The number of an attempt never exceeds its column.
    rw [Option.isSome_iff_ne_none, Ne, up_eq_none]
    rintro ⟨q, hq, hlive, hlt⟩
    obtain ⟨r, hr, rfl⟩ := List.mem_map.1 hq
    have hcount := (hcoherent hr).legacy_attempts hlive
    have hle := (htally hr).attempts_le
    have hmax := (hbounded hr).2
    rw [maxInt] at hlt
    split at hcount <;> omega
  have hq : r.legacy ∈ (s.mysql.store.down (h.foreign h₀)).jobs := List.mem_map_of_mem hr
  have hrow₁ : s₁.mysql.store.job? r.id = some (r.legacy.upgraded t₁ t₂ t₄) := up_job? hup hq
  have hkey : (r.legacy.upgraded t₁ t₂ t₄).requestKey = none := by
    rw [LegacyRow.upgraded, JobRow.reset_requestKey, JobRow.preserve_requestKey]
    rfl
  obtain ⟨howner, huntil⟩ := upgraded_unleased (q := r.legacy) t₁ t₂ t₄
  refine ⟨_, hrow₁, upgraded_generation, hkey, howner, huntil, fun hover => ?_, fun hlive => ?_⟩
  · -- A job that is over is left alone.
    have hdead := legacy_not_live hover
    have hsame := upgraded_over t₁ t₂ t₄ hdead
    refine ⟨upgraded_legacy_over t₁ t₂ t₄ hdead, up_outbox_over hup hq hdead, fun hnone => ?_⟩
    exact (h'.life h₁ r.id).over hrow₁ (by rw [hsame]; exact hover) hnone
  · have hl := legacy_live hlive (hbounded hr).1
    have hcount := (hcoherent hr).legacy_attempts hl
    obtain ⟨-, hatt, -, -, hnext, -, -⟩ := upgraded_live t₁ t₂ t₄ hl
    refine ⟨upgraded_legacy_live t₁ t₂ t₄ hl, hatt.trans hcount, ?_, ?_⟩
    · obtain ⟨o, ho, hplace, hdue, -⟩ := up_outbox_live hup hq hl
      refine ⟨o, ho, ?_, ?_, by rw [hplace, hatt]; rfl⟩
      · rw [hnext, hdue]
        exact h₁₂.trans h₂₃
      · rw [hdue]
        exact h₃₄.trans hclock
    -- What was claimed before, and what can be claimed after.
    · have hbefore := (htally hr).attempts_eq
      have hle := (htally hr).attempts_le
      have hafter : claimsIn 1 (history r.id (closings es')) + r.legacy.attempts ≤
          max (r.maxRetries + 1) r.legacy.attempts := h'.claims_upgraded h₁ hl hrow₁
      rw [hcount] at hafter
      by_cases hst : r.status = .pending
      · rw [if_pos hst] at hafter ⊢
        omega
      · rw [if_neg hst] at hafter ⊢
        omega

/-- A new system on tables, in which log entries have numbers below `n`. -/
def State.on (t : Tables) (n : ℕ) : State :=
  { State.fresh with mysql := ⟨t, 0, n, fun _ => none, fun _ => none⟩ }

theorem Initial.on {t : Tables} {n : ℕ} (hsound : ∀ id, (t.view id).Sound)
    (hlogged : ∀ l ∈ t.jobAuditLogs, l.id < n) : Initial (.on t n) where
  sound := hsound
  logged _ l hl := hlogged l (List.mem_filter.1 hl).1
  sessions := rfl
  locks := rfl
  workers := rfl
  dispatchers := rfl
  calls := rfl
  stream := Initial.fresh.stream

/-- The first job is dead, and a second one is put back after its first attempt. -/
def deadAndPending : List Action :=
  firstClaim ++ finishing "w" 4 0 (.failed "no" true) ++ creating 1 5 0 firstInput secondJob ++
    dispatching 0 7 0 ++ claiming "w" 8 0 ++ finishing "w" 9 0 (.failed "later" false)

/-- The first job stays dead, and the second one gets its attempt back; the errors of both are
    kept. -/
theorem downgrade_gives_back_first :
    let s := (State.after deadAndPending).1
    ∃ foreign t r₁ r₂, (s.mysql.store.down foreign).up 0 0 0 0 = some t ∧
      t.job? firstJob = some r₁ ∧ r₁.status = .dead ∧ r₁.errorMsg = some "no" ∧
      t.outboxOf firstJob = [] ∧
      (s.mysql.store.job? secondJob).map (·.attemptCount) = some 1 ∧
      t.job? secondJob = some r₂ ∧ r₂.status = .pending ∧ r₂.attemptCount = 0 ∧
      r₂.errorMsg = some "later" := by
  intro s
  have hrun : Run (.defaults id) .fresh _ s := Run.play _ _ _
  obtain ⟨hup, hback⟩ := downgrade_gives_back .fresh hrun fun _ => rfl
  obtain ⟨t, ht⟩ := Option.isSome_iff_exists.1 (hup 0 0 0 0)
  have h₁ : Initial (.on t s.mysql.serial) := by
    refine .on (up_sound ht) fun l hl => ?_
    rw [(up_eq ht).2.1] at hl
    exact (hrun.kept .fresh).logged l.jobId l (List.mem_filter.2 ⟨hl, by simp⟩)
  have hrefl : Run (.defaults id) (.on t s.mysql.serial) [] _ := .refl
  have hclock : s.mysql.clock ≤ 0 := by decide
  have hjob {r : JobRow} {id : JobId} (hr : s.mysql.store.job? id = some r) :=
    hback 0 0 0 0 _ _ [] hclock le_rfl le_rfl le_rfl le_rfl h₁ hrefl ht r (Tables.job?_mem hr)
  obtain ⟨q₁, hq₁, hid₁, hst₁, herr₁⟩ : ∃ r, s.mysql.store.job? firstJob = some r ∧
      r.id = firstJob ∧ r.status = .dead ∧ r.errorMsg = some "no" := ⟨_, rfl, rfl, rfl, rfl⟩
  obtain ⟨q₂, hq₂, hid₂, hst₂, hcount, herr₂⟩ : ∃ r, s.mysql.store.job? secondJob = some r ∧
      r.id = secondJob ∧ r.status = .pending ∧ r.attemptCount = 1 ∧
      r.errorMsg = some "later" := ⟨_, rfl, rfl, rfl, rfl, rfl⟩
  obtain ⟨r₁, hr₁, -, -, -, -, hover, -⟩ := hjob hq₁
  obtain ⟨hlegacy₁, hnone, -⟩ := hover (.inr hst₁)
  obtain ⟨r₂, hr₂, -, -, -, -, -, hlive⟩ := hjob hq₂
  obtain ⟨hlegacy₂, hcount₂, -⟩ := hlive (by simp [JobRow.terminal, hst₂])
  rw [hid₁] at hr₁ hnone
  rw [hid₂] at hr₂
  rw [if_pos hst₂, hcount] at hcount₂
  have hstatus₁ : r₁.status = q₁.status := congrArg LegacyRow.status hlegacy₁
  have hstatus₂ : r₂.status = .pending := congrArg LegacyRow.status hlegacy₂
  have herror₁ : r₁.errorMsg = q₁.errorMsg := congrArg LegacyRow.errorMsg hlegacy₁
  have herror₂ : r₂.errorMsg = q₂.errorMsg := congrArg LegacyRow.errorMsg hlegacy₂
  exact ⟨_, t, r₁, r₂, ht, hr₁, hstatus₁.trans hst₁, herror₁.trans herr₁, hnone,
    by rw [hq₂, Option.map_some, hcount], hr₂, hstatus₂, hcount₂, herror₂.trans herr₂⟩

end ScaleQueue
