import ScaleQueue.Budget
import ScaleQueue.Wakeups

/-!
# The durable-delivery upgrade

The up migration, statement by statement, from any table of the version before
(`LegacyTables.up`), and what holds of a system that starts on the tables it
leaves. `retry_count` of that version counted attempts, rows could be exhausted
while they were `PENDING`, and there were `FAILED` rows, which neither `Claim` nor
`Dispatch` takes for over: these are safe as long as nothing that is delivered
names their job (`Unheard`).
-/

namespace ScaleQueue

open Locking

/-- A row of `jobs` before the upgrade. -/
structure LegacyRow where
  id : JobId
  type : String
  payload : Json
  status : JobStatus
  retryCount : ℕ
  maxRetries : ℕ
  priority : ℕ
  createdAt : ℕ
  updatedAt : ℕ
  processedAt : Option ℕ
  errorMsg : Option String

/-- The tables before the upgrade. -/
structure LegacyTables where
  jobs : List LegacyRow
  jobAuditLogs : List LogRow
  primary : (jobs.map (·.id)).Nodup
  foreign : ∀ l ∈ jobAuditLogs, l.jobId ∈ jobs.map (·.id)

/-- `ALTER TABLE jobs`: the new columns have their defaults. -/
def LegacyRow.alter (now : ℕ) (r : LegacyRow) : JobRow where
  id := r.id
  type := r.type
  payload := r.payload
  status := r.status
  retryCount := r.retryCount
  maxRetries := r.maxRetries
  priority := r.priority
  createdAt := r.createdAt
  updatedAt := r.updatedAt
  processedAt := r.processedAt
  errorMsg := r.errorMsg
  requestKey := none
  requestHash := none
  generation := 1
  attemptCount := 0
  nextAttemptAt := now
  leaseOwner := none
  leaseUntil := none

namespace JobRow

variable (now : ℕ) (r : JobRow)

/-- `status IN ('PENDING','PROCESSING')`. -/
def nonterminal : Bool := r.status = .pending || r.status = .processing

/-- `retry_count+IF(status='PROCESSING',1,0)`. -/
def consumed : ℕ := r.retryCount + if r.status = .processing then 1 else 0

/-- `UPDATE jobs SET attempt_count=...`; `updated_at` follows the change of the row. -/
def preserve : JobRow :=
  if r.nonterminal then
    { r with
      attemptCount := r.consumed
      updatedAt := if r.consumed = r.attemptCount then r.updatedAt else seconds now }
  else r

/-- `UPDATE jobs SET status='PENDING' WHERE status='PROCESSING'`. -/
def reset : JobRow :=
  if r.status = .processing then { r with status := .pending, updatedAt := seconds now } else r

end JobRow

/-- `INSERT INTO job_outbox ... SELECT ... FROM jobs`. -/
def backfill (now : ℕ) (jobs : List JobRow) : List OutboxRow :=
  (jobs.filter (·.nonterminal)).mapIdx fun i r =>
    ⟨i + 1, ⟨r.id, r.generation, r.attemptCount + 1⟩, now, none⟩

@[simp] theorem JobRow.preserve_id (now : ℕ) (r : JobRow) : (r.preserve now).id = r.id := by
  unfold JobRow.preserve
  split <;> rfl

@[simp] theorem JobRow.reset_id (now : ℕ) (r : JobRow) : (r.reset now).id = r.id := by
  unfold JobRow.reset
  split <;> rfl

@[simp] theorem JobRow.preserve_requestKey (now : ℕ) (r : JobRow) :
    (r.preserve now).requestKey = r.requestKey := by
  unfold JobRow.preserve
  split <;> rfl

@[simp] theorem JobRow.reset_requestKey (now : ℕ) (r : JobRow) :
    (r.reset now).requestKey = r.requestKey := by
  unfold JobRow.reset
  split <;> rfl

theorem backfill_places (now : ℕ) (jobs : List JobRow) :
    (backfill now jobs).map (·.place) = (jobs.filter (·.nonterminal)).map fun r =>
      ⟨r.id, r.generation, r.attemptCount + 1⟩ := by
  exact List.ext_getElem (by simp [backfill]) (by simp [backfill])

theorem backfill_nodup (now : ℕ) {jobs : List JobRow} (h : (jobs.map (·.id)).Nodup) :
    ((backfill now jobs).map (·.place)).Nodup := by
  rw [backfill_places]
  refine .of_map Place.jobId ?_
  rw [List.map_map]
  exact h.sublist (List.filter_sublist.map _)

namespace LegacyTables

variable (l : LegacyTables)

/-- The rows after the budgets were preserved; the statements are made at the times
    `t₁` and `t₂`. -/
def preserved (t₁ t₂ : ℕ) : List JobRow := l.jobs.map fun r => (r.alter t₁).preserve t₂

theorem preserved_ids (t₁ t₂ : ℕ) : (l.preserved t₁ t₂).map (·.id) = l.jobs.map (·.id) := by
  simp [preserved, LegacyRow.alter]

/-- The up migration, its statements made at the times `t₁` to `t₄`. It fails where
    a count exceeds its column. -/
def up (t₁ t₂ t₃ t₄ : ℕ) : Option Tables :=
  if l.jobs.any fun r => (r.alter t₁).nonterminal && maxInt < (r.alter t₁).consumed then none
  else if (l.preserved t₁ t₂).any fun r => r.nonterminal && maxInt < r.attemptCount + 1 then none
  else some
    { jobs := (l.preserved t₁ t₂).map (·.reset t₄)
      jobAuditLogs := l.jobAuditLogs
      jobOutbox := backfill t₃ (l.preserved t₁ t₂)
      primary := by simpa [preserved, LegacyRow.alter, Function.comp_def] using l.primary
      idxRequestKey := by
        simp [preserved, LegacyRow.alter, List.filterMap_map, Function.comp_def]
      dispatchIdentity := backfill_nodup t₃ (by rw [preserved_ids]; exact l.primary) }

end LegacyTables

/-! ## What the upgrade leaves -/

/-- The row that the upgrade makes of a legacy row. -/
def LegacyRow.upgraded (t₁ t₂ t₄ : ℕ) (q : LegacyRow) : JobRow :=
  ((q.alter t₁).preserve t₂).reset t₄

/-- The attempts that a legacy row has used up. -/
def LegacyRow.attempts (q : LegacyRow) : ℕ :=
  q.retryCount + if q.status = .processing then 1 else 0

/-- The job is not over. -/
def LegacyRow.live (q : LegacyRow) : Prop := q.status = .pending ∨ q.status = .processing

section Upgraded

variable {l : LegacyTables} {q : LegacyRow} {t₁ t₂ t₃ t₄ : ℕ} {t : Tables}

theorem alter_nonterminal : (q.alter t₁).nonterminal = true ↔ q.live := by
  show (decide (q.status = .pending) || decide (q.status = .processing)) = true ↔ _
  simp [LegacyRow.live]

@[simp] theorem upgraded_id : (q.upgraded t₁ t₂ t₄).id = q.id := by
  simp [LegacyRow.upgraded, LegacyRow.alter]

theorem preserve_live (t₁ t₂ : ℕ) (h : q.live) : ((q.alter t₁).preserve t₂).nonterminal = true ∧
    ((q.alter t₁).preserve t₂).attemptCount = q.attempts ∧
    ((q.alter t₁).preserve t₂).generation = 1 := by
  have hn : (q.alter t₁).nonterminal = true := alter_nonterminal.2 h
  rw [JobRow.preserve, if_pos hn]
  exact ⟨hn, rfl, rfl⟩

theorem preserve_over (h : ¬ q.live) : (q.alter t₁).preserve t₂ = q.alter t₁ :=
  if_neg fun hn => h (alter_nonterminal.1 hn)

/-- A job that was not over is pending, and keeps its budget. -/
theorem upgraded_live (t₁ t₂ t₄ : ℕ) (h : q.live) :
    (q.upgraded t₁ t₂ t₄).status = .pending ∧ (q.upgraded t₁ t₂ t₄).attemptCount = q.attempts ∧
      (q.upgraded t₁ t₂ t₄).maxRetries = q.maxRetries ∧
      (q.upgraded t₁ t₂ t₄).generation = 1 ∧ (q.upgraded t₁ t₂ t₄).nextAttemptAt = t₁ ∧
      (q.upgraded t₁ t₂ t₄).leaseOwner = none ∧ (q.upgraded t₁ t₂ t₄).leaseUntil = none := by
  rw [LegacyRow.upgraded, JobRow.preserve, if_pos (alter_nonterminal.2 h), JobRow.reset]
  rcases h with h | h <;> simp [LegacyRow.alter, JobRow.consumed, LegacyRow.attempts, h]

/-- A job that was over is as it was. -/
theorem upgraded_over (t₁ t₂ t₄ : ℕ) (h : ¬ q.live) : q.upgraded t₁ t₂ t₄ = q.alter t₁ := by
  have hst : q.status ≠ .processing := fun hp => h (.inr hp)
  rw [LegacyRow.upgraded, preserve_over h, JobRow.reset,
    if_neg (by simpa [LegacyRow.alter] using hst)]

theorem upgraded_generation : (q.upgraded t₁ t₂ t₄).generation = 1 := by
  by_cases h : q.live
  · exact (upgraded_live t₁ t₂ t₄ h).2.2.2.1
  · rw [upgraded_over t₁ t₂ t₄ h]
    rfl

theorem up_eq (h : l.up t₁ t₂ t₃ t₄ = some t) :
    t.jobs = l.jobs.map (·.upgraded t₁ t₂ t₄) ∧ t.jobAuditLogs = l.jobAuditLogs ∧
      t.jobOutbox = backfill t₃ (l.preserved t₁ t₂) := by
  unfold LegacyTables.up at h
  split_ifs at h
  obtain rfl := Option.some.inj h
  refine ⟨?_, rfl, rfl⟩
  simp [LegacyTables.preserved, LegacyRow.upgraded]

/-- The upgrade fails only where a count does not fit its column. -/
theorem up_eq_none : l.up t₁ t₂ t₃ t₄ = none ↔
    ∃ q ∈ l.jobs, q.live ∧ maxInt < q.attempts + 1 := by
  unfold LegacyTables.up
  constructor
  · intro h
    split_ifs at h with hone htwo
    · simp only [List.any_eq_true, Bool.and_eq_true, decide_eq_true_eq] at hone
      obtain ⟨q, hq, hlive, hlt⟩ := hone
      exact ⟨q, hq, alter_nonterminal.1 hlive, Nat.lt_succ_of_lt hlt⟩
    -- The overflow of the second statement: that of a row that was preserved.
    · simp only [LegacyTables.preserved, List.any_map, List.any_eq_true, Function.comp_apply,
        Bool.and_eq_true, decide_eq_true_eq] at htwo
      obtain ⟨q, hq, hlive, hlt⟩ := htwo
      by_cases hl : q.live
      · exact ⟨q, hq, hl, by rwa [(preserve_live t₁ t₂ hl).2.1] at hlt⟩
      · rw [preserve_over hl] at hlive
        exact absurd (alter_nonterminal.1 hlive) hl
  · rintro ⟨q, hq, hl, hlt⟩
    split_ifs with hone htwo
    · rfl
    · rfl
    · refine absurd ?_ htwo
      obtain ⟨hn, hatt, -⟩ := preserve_live t₁ t₂ hl
      simp only [LegacyTables.preserved, List.any_map, List.any_eq_true, Function.comp_apply,
        Bool.and_eq_true, decide_eq_true_eq]
      exact ⟨q, hq, hn, hatt.symm ▸ hlt⟩

theorem up_job? (h : l.up t₁ t₂ t₃ t₄ = some t) (hq : q ∈ l.jobs) :
    t.job? q.id = some (q.upgraded t₁ t₂ t₄) := by
  have hmem : q.upgraded t₁ t₂ t₄ ∈ t.jobs := by
    rw [(up_eq h).1]
    exact List.mem_map_of_mem hq
  simpa using t.job?_of_mem hmem

theorem up_job?_some (h : l.up t₁ t₂ t₃ t₄ = some t) {id : JobId} {r : JobRow}
    (hr : t.job? id = some r) : ∃ q ∈ l.jobs, q.id = id ∧ q.upgraded t₁ t₂ t₄ = r := by
  have hmem := Tables.job?_mem hr
  rw [(up_eq h).1] at hmem
  obtain ⟨q, hq, rfl⟩ := List.mem_map.1 hmem
  exact ⟨q, hq, by simpa using Tables.job?_id hr, rfl⟩

theorem mem_backfill {now : ℕ} {jobs : List JobRow} {o : OutboxRow} (h : o ∈ backfill now jobs) :
    o.availableAt = now ∧ o.publishedAt = none ∧ ∃ r ∈ jobs, r.nonterminal = true ∧
      o.place = ⟨r.id, r.generation, r.attemptCount + 1⟩ := by
  obtain ⟨i, hi, rfl⟩ := List.mem_mapIdx.1 h
  obtain ⟨hmem, hn⟩ := List.mem_filter.1 (List.getElem_mem hi)
  exact ⟨rfl, rfl, _, hmem, hn, rfl⟩

theorem up_outbox (h : l.up t₁ t₂ t₃ t₄ = some t) {id : JobId} {o : OutboxRow}
    (ho : o ∈ t.outboxOf id) : o.availableAt = t₃ ∧ o.publishedAt = none ∧
      ∃ q ∈ l.jobs, q.id = id ∧ q.live ∧ o.place = ⟨q.id, 1, q.attempts + 1⟩ := by
  obtain ⟨hmem, hid⟩ := t.mem_outboxOf.1 ho
  rw [(up_eq h).2.2] at hmem
  obtain ⟨hdue, hpub, r, hr, hn, hplace⟩ := mem_backfill hmem
  obtain ⟨q, hq, rfl⟩ := List.mem_map.1 hr
  by_cases hl : q.live
  · obtain ⟨-, hatt, hgen⟩ := preserve_live t₁ t₂ hl
    rw [hatt, hgen, JobRow.preserve_id] at hplace
    exact ⟨hdue, hpub, q, hq, by rw [← hid, hplace]; rfl, hl, hplace⟩
  · rw [preserve_over hl] at hn
    exact absurd (alter_nonterminal.1 hn) hl

/-- A list whose elements all have one key, which no two have, is that of one element. -/
theorem eq_singleton_of_key {α κ : Type} {key : α → κ} {k : κ} {xs : List α} {x : α}
    (hn : (xs.map key).Nodup) (hk : ∀ y ∈ xs, key y = k) (hx : x ∈ xs) : xs = [x] := by
  cases xs with
  | nil => exact absurd hx List.not_mem_nil
  | cons a ys =>
    cases ys with
    | nil => rw [List.mem_singleton.1 hx]
    | cons b zs =>
      have hab : key a = key b := (hk a (by simp)).trans (hk b (by simp)).symm
      simp [hab] at hn

/-- A job that was not over has its one row in the outbox. -/
theorem up_outbox_live (h : l.up t₁ t₂ t₃ t₄ = some t) (hq : q ∈ l.jobs) (hl : q.live) :
    ∃ o, t.outboxOf q.id = [o] ∧ o.place = ⟨q.id, 1, q.attempts + 1⟩ ∧ o.availableAt = t₃ ∧
      o.publishedAt = none := by
  have hplace : (⟨q.id, 1, q.attempts + 1⟩ : Place) ∈ t.jobOutbox.map (·.place) := by
    rw [(up_eq h).2.2, backfill_places]
    obtain ⟨hn, hatt, hgen⟩ := preserve_live t₁ t₂ hl
    refine List.mem_map.2 ⟨_, List.mem_filter.2 ⟨List.mem_map_of_mem hq, hn⟩, ?_⟩
    rw [hatt, hgen, JobRow.preserve_id]
    rfl
  obtain ⟨o, ho, hop⟩ := List.mem_map.1 hplace
  have hmem : o ∈ t.outboxOf q.id := t.mem_outboxOf.2 ⟨ho, by rw [hop]⟩
  obtain ⟨hdue, hpub, -⟩ := up_outbox h hmem
  refine ⟨o, ?_, hop, hdue, hpub⟩
  refine eq_singleton_of_key (k := ⟨q.id, 1, q.attempts + 1⟩)
    (t.dispatchIdentity.sublist (List.filter_sublist.map _)) (fun p hp => ?_) hmem
  obtain ⟨-, -, q', hq', hid, -, hp'⟩ := up_outbox h hp
  rw [hp', List.inj_on_of_nodup_map l.primary hq' hq hid]

theorem up_outbox_over (h : l.up t₁ t₂ t₃ t₄ = some t) (hq : q ∈ l.jobs) (hl : ¬ q.live) :
    t.outboxOf q.id = [] := by
  refine List.eq_nil_iff_forall_not_mem.2 fun o ho => ?_
  obtain ⟨-, -, q', hq', hid, hl', -⟩ := up_outbox h ho
  rw [List.inj_on_of_nodup_map l.primary hq' hq hid] at hl'
  exact hl hl'

theorem up_sound (h : l.up t₁ t₂ t₃ t₄ = some t) (id : JobId) : (t.view id).Sound where
  absent hrow := by
    have hnone : ∀ q ∈ l.jobs, q.id ≠ id := by
      rintro q hq rfl
      have hrow : t.job? q.id = none := hrow
      simp [up_job? h hq] at hrow
    refine ⟨List.eq_nil_iff_forall_not_mem.2 fun p hp => ?_,
      List.eq_nil_iff_forall_not_mem.2 fun o ho => ?_⟩
    · obtain ⟨hmem, hid⟩ := List.mem_filter.1 hp
      rw [(up_eq h).2.1] at hmem
      obtain ⟨q, hq, heq⟩ := List.mem_map.1 (l.foreign p hmem)
      exact hnone q hq (heq.trans (by simpa using hid))
    · obtain ⟨-, -, q, hq, hid, -⟩ := up_outbox h ho
      exact hnone q hq hid
  one_le r hr := by
    obtain ⟨q, -, -, rfl⟩ := up_job?_some h hr
    rw [upgraded_generation]
  le_maxInt r hr := by
    obtain ⟨q, -, -, rfl⟩ := up_job?_some h hr
    rw [upgraded_generation]
    decide
  generation_le r hr o ho := by
    obtain ⟨q, -, -, rfl⟩ := up_job?_some h hr
    obtain ⟨-, -, q', -, -, -, hplace⟩ := up_outbox h ho
    rw [upgraded_generation, hplace]

/-- What the upgrade leaves fits. -/
theorem up_fits (h : l.up t₁ t₂ t₃ t₄ = some t) (h₁₃ : t₁ ≤ t₃) {id : JobId} {r : JobRow}
    (hr : t.job? id = some r) : ∀ o ∈ t.outboxOf id, Fits o.place o.availableAt r := by
  intro o ho
  obtain ⟨q, hq, rfl, rfl⟩ := up_job?_some h hr
  obtain ⟨hdue, -, q', hq', hid, hl, hplace⟩ := up_outbox h ho
  obtain rfl := List.inj_on_of_nodup_map l.primary hq' hq hid
  obtain ⟨hst, hatt, -, hgen, hnext, -⟩ := upgraded_live t₁ t₂ t₄ hl
  rw [hplace]
  exact .inr ⟨hgen.symm, by rw [hatt], by simp [hst], fun _ _ => by rw [hnext, hdue]; exact h₁₃⟩

end Upgraded

/-! ## Runs after the upgrade -/

/-- A state in which nothing runs yet, on the tables that the upgrade left, with any
    stream of messages that carry no generation. -/
structure Upgraded (l : LegacyTables) (s : State) : Prop where
  store : ∃ t₁ t₂ t₃ t₄, t₁ ≤ t₂ ∧ t₂ ≤ t₃ ∧ t₃ ≤ t₄ ∧ t₄ ≤ s.mysql.clock ∧
    l.up t₁ t₂ t₃ t₄ = some s.mysql.store
  logged : ∀ p ∈ l.jobAuditLogs, p.id < s.mysql.serial
  sessions : s.mysql.sessions = fun _ => none
  locks : s.mysql.locks = fun _ => none
  workers : s.workers = fun _ => none
  dispatchers : s.dispatchers = fun _ => none
  calls : s.calls = fun _ => none
  stream : s.stream.Sound
  legacy : ∀ e, s.stream.Holds e → e.values.generation = none

theorem Upgraded.initial {l : LegacyTables} {s : State} (h : Upgraded l s) : Initial s where
  sound := by
    obtain ⟨_, _, _, _, -, -, -, -, hup⟩ := h.store
    exact up_sound hup
  logged id p hp := by
    obtain ⟨_, _, _, _, -, -, -, -, hup⟩ := h.store
    have hmem := (List.mem_filter.1 hp).1
    rw [(up_eq hup).2.1] at hmem
    exact h.logged p hmem
  sessions := h.sessions
  locks := h.locks
  workers := h.workers
  dispatchers := h.dispatchers
  calls := h.calls
  stream := h.stream

/-- The runs in which only `Dispatch` adds messages with a generation to the stream. -/
inductive Undisturbed (cfg : Config) (s₀ : State) : List Event → State → Prop
  | refl : Undisturbed cfg s₀ [] s₀
  | step {es es' : List Event} {s s' : State} {a : Action} : Undisturbed cfg s₀ es s →
      s.step cfg a = some (s', es') → (∀ m, a = .inject m → m.generation = none) →
      Undisturbed cfg s₀ (es ++ es') s'

theorem Undisturbed.run {cfg : Config} {s₀ s : State} {es : List Event}
    (h : Undisturbed cfg s₀ es s) : Run cfg s₀ es s := by
  induction h with
  | refl => exact .refl
  | step _ hs _ ih => exact ih.step hs

theorem Undisturbed.play {cfg : Config} {s₀ s : State} {es : List Event}
    (h : Undisturbed cfg s₀ es s) (acts : List Action)
    (hacts : ∀ a ∈ acts, ∀ m, a = .inject m → m.generation = none) :
    Undisturbed cfg s₀ (es ++ (s.play cfg acts).2) (s.play cfg acts).1 := by
  induction acts generalizing es s with
  | nil => rwa [State.play, List.append_nil]
  | cons a acts ih =>
    have hacts' := fun b hb => hacts b (List.mem_cons_of_mem _ hb)
    rw [State.play]
    split
    · exact ih h hacts'
    · rw [← List.append_assoc]
      exact ih (h.step ‹_› (hacts a List.mem_cons_self)) hacts'

/-- No delivery names the job. -/
structure Unheard (id : JobId) (s : State) : Prop where
  stream : ∀ e, s.stream.Holds e → ∀ g, decode e.values ≠ some (id, g)
  has : ∀ w x e, s.workers w = some x → x.Has e → ∀ g, decode e.values ≠ some (id, g)
  sessions : ∀ sid y g w, s.mysql.sessions sid = some y → y.op ≠ .claim id g w

section Steps

variable {cfg : Config} {s s' : State} {id : JobId}

/-- A message is read as one for the job of its row. -/
theorem jobId_of_decode {p : Place} {g : ℕ} (h : decode (encode p) = some (id, g)) :
    p.jobId = id := by
  unfold decode at h
  split at h
  · split at h
    · cases h
    · split at h
      · cases h
      · exact (Prod.mk.inj (Option.some.inj h)).1
  · cases h

/-- What is delivered and read is then in hand. -/
theorem Stepped.delivered {a : Action} {es : List Event} (h : Stepped cfg s a s' es) {w : WorkerId}
    {n : ℕ} {e : Redis.Entry Message} (he : .delivered w n e ∈ es)
    (hdec : decode e.values ≠ none) : ∃ x', s'.workers w = some x' ∧ x'.Has e := by
  obtain ⟨x', hx'⟩ := h.present he rfl
  refine ⟨x', hx', ?_⟩
  have hturn := h.turn hx'
  cases hturn with
  | idle _ hno => exact absurd rfl (hno _ he)
  | started => simp at he
  | told _ _ hx => cases hx <;> simp_all
  | lost _ hx => cases hx <;> simp_all
  | acted _ hx =>
    cases hx with
    | delivered h' _ hp _ _ _ hev =>
      obtain ⟨-, rfl⟩ : n = h'.number ∧ e = h'.entry := by simpa [hev] using he
      exact .inr ⟨h', by rw [hp]; rfl, rfl⟩
    | malformed e' _ _ _ _ _ hev hnone =>
      obtain ⟨-, rfl⟩ : n = s.handled ∧ e = e' := by simpa [hev] using he
      exact absurd hnone hdec
    | _ => simp_all

/-- Nothing names a job that has no row in the outbox. -/
theorem Unheard.step {a : Action} {es : List Event} (h : Unheard id s) (hk : Kept cfg s.mysql)
    (hp : Paired none s) (hs : Stepped cfg s a s' es)
    (hinject : ∀ m, a = .inject m → m.generation = none)
    (hout : s.mysql.store.outboxOf id = []) : Unheard id s' := by
  have hhas : ∀ w x e, s'.workers w = some x → x.Has e → ∀ g, decode e.values ≠ some (id, g) := by
    intro w x e hw he
    rcases hs.has hw he with ⟨x', hw', he'⟩ | he'
    · exact h.has w x' e hw' he'
    · exact h.stream e he'
  refine ⟨fun e he g hdec => ?_, hhas, fun sid y g w hy hop => ?_⟩
  · rcases hs.holds he with he | ⟨o, ho⟩ | hinj
    · exact h.stream e he g hdec
    -- What is published is in the outbox.
    · obtain ⟨⟨sid, hwait⟩, rfl, -⟩ := hs.published ho
      obtain ⟨hmem, -⟩ := hk.publishing hwait
      rw [jobId_of_decode hdec] at hmem
      have hmem : o ∈ s.mysql.store.outboxOf id := hmem
      simp [hout] at hmem
    · rw [decode_eq_none_of_generation (hinject _ hinj)] at hdec
      cases hdec
  · cases hs.continues hp hy with
    | stays hy' hop' => exact h.sessions sid _ g w hy' (hop' ▸ hop)
    | runs _ hy' hop' => exact h.sessions sid _ g w hy' (hop' ▸ hop)
    | answered hy' hop' => exact h.sessions sid _ g w hy' (hop' ▸ hop)
    | opened _ _ _ hby =>
      rw [hop] at hby
      generalize sid.party = p at hby
      cases hby with
      | claim he hdec =>
        obtain ⟨x', hw, hx'⟩ := hs.delivered he (by simp [hdec])
        exact hhas w x' _ hw hx' g hdec

/-- A job that was over at the start, as long as nobody requeues it. -/
structure Frozen (id : JobId) (v₀ : JobView) (es : List Event) (s : State) : Prop where
  view : s.mysql.store.view id = v₀
  history : history id (closings es) = []
  unheard : Unheard id s

/-- What commits on a job that is over, has no row in the outbox, and is not heard
    of, is a requeue. -/
theorem Frozen.commit {v₀ : JobView} {es : List Event} (h : Frozen id v₀ es s) {r₀ : JobRow}
    (hr₀ : v₀.row = some r₀) (hst : r₀.status ≠ .pending ∧ r₀.status ≠ .processing)
    (hout : v₀.outbox = []) {sid : Sid} {how : Closing} {db : MySQL} {op : Op} {a : Answer}
    {lo hi : Env} {v' : JobView} (hc : s.mysql.close sid how = some (db, .committed op a))
    (hchange : Change cfg.lease id lo hi op a (s.mysql.store.view id) v') :
    isRequeue (op, a) = true := by
  obtain ⟨y, hy, hop, -⟩ := commit_session hc
  rw [h.view] at hchange
  obtain ⟨row, logs, out⟩ := v₀
  obtain rfl : row = some r₀ := hr₀
  obtain rfl : out = [] := hout
  cases hchange with
  | claimed => exact absurd hop (h.unheard.sessions sid y _ _ hy)
  | exhausted => exact absurd hop (h.unheard.sessions sid y _ _ hy)
  | renewed _ _ hown => exact absurd (ownedBy_iff.1 hown).2.1 hst.2
  | finished _ _ _ hown => exact absurd (ownedBy_iff.1 hown).2.1 hst.2
  | retried _ _ hown => exact absurd (ownedBy_iff.1 hown).2.1 hst.2
  | published ho => exact absurd ho List.not_mem_nil
  | dropped ho => exact absurd ho List.not_mem_nil
  | requeued => rfl

theorem Undisturbed.frozen {l : LegacyTables} {s₀ : State} {es : List Event}
    (h : Undisturbed cfg s₀ es s) (h₀ : Upgraded l s₀) {r₀ : JobRow}
    (hr₀ : s₀.mysql.store.job? id = some r₀)
    (hst : r₀.status ≠ .pending ∧ r₀.status ≠ .processing)
    (hout : s₀.mysql.store.outboxOf id = []) (hnone : requeues (history id (closings es)) = 0) :
    Frozen id (s₀.mysql.store.view id) es s := by
  induction h with
  | refl =>
    refine ⟨rfl, rfl, fun e he g hdec => ?_, by simp [h₀.workers], by simp [h₀.sessions]⟩
    rw [decode_eq_none_of_generation (h₀.legacy e he)] at hdec
    cases hdec
  | @step es es' s s' a h hs hinject ih =>
    rw [closings_append, history_append, requeues_append, Nat.add_eq_zero_iff] at hnone
    have hfrozen := ih hnone.1
    have hstep := step_cases hs
    have hk := h.run.kept h₀.initial
    have hout' : s.mysql.store.outboxOf id = [] := (congrArg JobView.outbox hfrozen.view).trans hout
    have hunheard := hfrozen.unheard.step hk (h.run.paired h₀.initial) hstep hinject hout'
    rcases hstep.view hk id with ⟨hsame, hnil⟩ | ⟨_, _, _, op, b, _, _, -, hc, hchange, hone, -⟩
    · refine ⟨hsame.trans hfrozen.view, ?_, hunheard⟩
      rw [closings_append, history_append, hfrozen.history, hnil, List.append_nil]
    · have hreq := hfrozen.commit hr₀ hst hout hc hchange
      rw [hone] at hnone
      simp [requeues, hreq] at hnone

/-- The budget of a job does not change. -/
theorem Life.maxRetries {lease : ℕ} {v₀ v : JobView} {t₀ t : ℕ} {h : List (Op × Answer)}
    (hl : Life lease id v₀ t₀ h v t) {r₀ : JobRow} (hr₀ : v₀.row = some r₀) :
    ∃ r, v.row = some r ∧ r.maxRetries = r₀.maxRetries := by
  induction hl with
  | start => exact ⟨r₀, hr₀, rfl⟩
  | wait _ _ ih => exact ih
  | change _ hc _ ih =>
    obtain ⟨r, hr, heq⟩ := ih
    cases hc with
    | created => cases hr
    | published => exact ⟨r, hr, heq⟩
    | dropped => exact ⟨r, hr, heq⟩
    | _ =>
      obtain rfl := Option.some.inj hr
      exact ⟨_, rfl, heq⟩

end Steps

/-! ## The upgrade -/

/-- The upgrade fails only where a count does not fit its column. Otherwise every job
    that was not over is pending without a lease, with the attempts it has used up and
    the one outbox row of the next, which is due, and every other job is as it was,
    without an outbox row. In every run that starts there, a job is claimed and handled
    in generation 1 no more often than its budget allows, no retry finds its place in
    the outbox taken, and a job that was over stays as it was unless it is requeued. -/
theorem upgrade_establishes {cfg : Config} {l : LegacyTables} {s₀ s : State} {es : List Event}
    (h₀ : Upgraded l s₀) (h : Undisturbed cfg s₀ es s) :
    (∀ t₁ t₂ t₃ t₄, l.up t₁ t₂ t₃ t₄ = none ↔ ∃ q ∈ l.jobs,
      (q.status = .pending ∨ q.status = .processing) ∧
      maxInt < q.retryCount + (if q.status = .processing then 1 else 0) + 1) ∧
    ∀ q ∈ l.jobs, ∃ r₀, s₀.mysql.store.job? q.id = some r₀ ∧ r₀.maxRetries = q.maxRetries ∧
      (q.status = .pending ∨ q.status = .processing → r₀.status = .pending ∧
        r₀.leaseOwner = none ∧ r₀.leaseUntil = none ∧
        r₀.attemptCount = q.retryCount + (if q.status = .processing then 1 else 0) ∧
        (∃ o, s₀.mysql.store.outboxOf q.id = [o] ∧ o.place = ⟨q.id, 1, r₀.attemptCount + 1⟩ ∧
          o.due s₀.mysql.clock = true ∧ r₀.nextAttemptAt ≤ o.availableAt) ∧
        ∀ sid how db j message delay, j.id = q.id → s.mysql.close sid how ≠
          some (db, .aborted (.finish j .pending message delay) (.error .dupEntry))) ∧
      (¬ (q.status = .pending ∨ q.status = .processing) → r₀.status = q.status ∧
        s₀.mysql.store.outboxOf q.id = [] ∧
        (requeues (history q.id (closings es)) = 0 →
          s.mysql.store.view q.id = s₀.mysql.store.view q.id ∧
          claims (history q.id (closings es)) = [])) ∧
      claimsIn 1 (history q.id (closings es)) ≤ r₀.maxRetries + 1 - r₀.attemptCount ∧
      startsIn q.id 1 es ≤ claimsIn 1 (history q.id (closings es)) := by
  refine ⟨fun t₁ t₂ t₃ t₄ => up_eq_none, fun q hq => ?_⟩
  obtain ⟨t₁, t₂, t₃, t₄, h₁₂, h₂₃, h₃₄, hclock, hup⟩ := h₀.store
  have hrow := up_job? hup hq
  have hlife := h.run.life h₀.initial q.id
  -- The budget; a job that goes on; a job that is over; and what is left of the budget.
  refine ⟨_, hrow, ?_, fun hl => ?_, fun hl => ?_, ?_, h.run.started h₀.initial q.id 1⟩
  · by_cases hl : q.live
    · exact (upgraded_live t₁ t₂ t₄ hl).2.2.1
    · rw [upgraded_over t₁ t₂ t₄ hl]
      rfl
  · obtain ⟨hst, hatt, -, -, hnext, hown, huntil⟩ :=
      upgraded_live t₁ t₂ t₄ hl
    obtain ⟨o, ho, hplace, hdue, hpub⟩ := up_outbox_live hup hq hl
    refine ⟨hst, hown, huntil, hatt, ⟨o, ho, by rw [hplace, hatt], ?_, ?_⟩, ?_⟩
    · simp only [OutboxRow.due, hdue, hpub, Option.all_none, Bool.and_true, decide_eq_true_eq]
      omega
    · rw [hnext, hdue]
      exact Nat.le_trans h₁₂ h₂₃
    · intro sid how db j message delay hid hc
      have hfits := hlife.fitting (h₀.initial.sound q.id) fun r hr =>
        up_fits hup (Nat.le_trans h₁₂ h₂₃) hr
      obtain ⟨-, y, hi, -, -, hwhy, -⟩ := (h.run.kept h₀.initial).abort hc
      cases hwhy with
      | retryTaken hr hown htaken =>
        rw [hid] at hr htaken
        exact htaken ((vacant_next (hfits _ hr)).1 (ownedBy_iff.1 hown).2.1)
  · have hover := upgraded_over t₁ t₂ t₄ hl
    have hout := up_outbox_over hup hq hl
    refine ⟨by rw [hover]; rfl, hout, fun hnone => ?_⟩
    have hfrozen := h.frozen h₀ hrow
      (by rw [hover]; exact ⟨fun hst => hl (.inl hst), fun hst => hl (.inr hst)⟩) hout hnone
    exact ⟨hfrozen.view, by rw [hfrozen.history]; rfl⟩
  · obtain ⟨r, hr, hmax⟩ := hlife.maxRetries hrow
    have horigin : Origin (q.upgraded t₁ t₂ t₄).attemptCount (s₀.mysql.store.view q.id) :=
      ⟨h₀.initial.sound q.id, fun hnone => absurd (hrow.symm.trans hnone) (by simp),
        fun r hr => by rw [← Option.some.inj (hrow.symm.trans hr), upgraded_generation],
        fun r hr => by rw [← Option.some.inj (hrow.symm.trans hr)]⟩
    have htally := hlife.tally horigin
    rw [hr] at htally
    have hbudget := htally.budget 1
    rw [if_pos rfl, hmax] at hbudget
    omega

/-- The id of a job that has failed. -/
def failedJob : JobId := ⟨"failed", by decide⟩

/-- A table with a job whose first attempt was interrupted, and one that has failed. -/
def firstLegacy : LegacyTables where
  jobs := [⟨firstJob, "send_email", .obj [], .processing, 0, 3, 5, 0, 0, none, none⟩,
    ⟨failedJob, "fail_job", .obj [], .failed, 4, 3, 5, 0, 0, some 0, some "no"⟩]
  jobAuditLogs := []
  primary := by decide
  foreign := by simp

/-- A new system on what the upgrade makes of this table. -/
def State.upgraded : State :=
  { State.fresh with
    mysql := { State.fresh.mysql with store := (firstLegacy.up 0 0 0 0).get (by decide) } }

theorem Upgraded.upgraded : Upgraded firstLegacy .upgraded where
  store := ⟨0, 0, 0, 0, le_rfl, le_rfl, le_rfl, le_rfl, (Option.some_get (by decide)).symm⟩
  logged := by simp [firstLegacy]
  sessions := rfl
  locks := rfl
  workers := rfl
  dispatchers := rfl
  calls := rfl
  stream := Initial.fresh.stream
  legacy e he := by
    obtain ⟨_, hs, -⟩ := he
    cases hs

/-- The interrupted job is pending again, and claimed for its second attempt; the one that
    has failed is left alone. -/
theorem upgrade_establishes_first :
    let run := State.upgraded.play (.defaults id)
      ([.startWorker "w", .startDispatcher 0] ++ dispatching 0 0 0 ++ claiming "w" 1 0)
    (∃ r₀, State.upgraded.mysql.store.job? firstJob = some r₀ ∧ r₀.attemptCount = 1 ∧
      claimsIn 1 (history firstJob (closings run.2)) = 1 ∧
      claimsIn 1 (history firstJob (closings run.2)) ≤ r₀.maxRetries + 1 - r₀.attemptCount) ∧
    ∃ r₀, State.upgraded.mysql.store.job? failedJob = some r₀ ∧ r₀.status = .failed ∧
      run.1.mysql.store.view failedJob = State.upgraded.mysql.store.view failedJob ∧
      claims (history failedJob (closings run.2)) = [] := by
  have start : Undisturbed (.defaults id) .upgraded [] .upgraded := .refl
  have h := upgrade_establishes .upgraded (start.play ([.startWorker "w", .startDispatcher 0] ++
    dispatching 0 0 0 ++ claiming "w" 1 0) (by simp [dispatching, claiming]))
  obtain ⟨r₀, hr₀, -, hlive, -, hbudget, -⟩ := h.2 _ List.mem_cons_self
  obtain ⟨r₁, hr₁, -, -, hover, -⟩ := h.2 _ (.tail _ List.mem_cons_self)
  obtain ⟨hst, -, hsame⟩ := hover (by decide)
  obtain ⟨hview, hclaims⟩ := hsame (by decide)
  exact ⟨⟨r₀, hr₀, (hlive (.inr rfl)).2.2.2.1, by decide, hbudget⟩, r₁, hr₁, hst, hview, hclaims⟩

end ScaleQueue
