import Mathlib.Data.List.Chain
import Mathlib.Data.List.DropRight
import ScaleQueue.Budget

/-!
# The audit log is the history of the row

The statements that write the log are not those that write the row, and some of
them name the status before from memory. Still the log of a job replays to its
row (`Audited`), with one entry for each requeue and each attempt: every
transaction that writes one writes the other (`Run.audited`).
-/

namespace ScaleQueue

open Locking

/-- The steps that the status of a job takes. -/
inductive Allowed : JobStatus → JobStatus → Prop
  | claim : Allowed .pending .processing
  | reclaim : Allowed .processing .processing
  | complete : Allowed .processing .completed
  | retry : Allowed .processing .pending
  | bury : Allowed .processing .dead
  | requeue : Allowed .dead .pending

/-- The entry of a requeue. -/
def LogRow.requeues (l : LogRow) : Bool := l.fromStatus = some .dead ∧ l.toStatus = .pending

/-- The entries since the last requeue, or all of them. -/
def sinceRequeue (logs : List LogRow) : List LogRow := logs.rtakeWhile (¬ ·.requeues)

/-- The log tells how the row came about. -/
structure Audited (logs : List LogRow) (r : JobRow) : Prop where
  sorted : logs.Pairwise (·.id < ·.id)
  first : ∃ l ∈ logs.head?, l.fromStatus = none ∧ l.toStatus = .pending
  chain : logs.IsChain fun l l' => l'.fromStatus = some l.toStatus ∧ Allowed l.toStatus l'.toStatus
  last : ∃ l ∈ logs.getLast?, l.toStatus = r.status
  requeues : logs.countP (·.requeues) = r.generation - 1
  attempts : (sinceRequeue logs).countP (·.toStatus = .processing) = r.attemptCount

/-- An entry for an allowed step of the row goes on with the log. -/
theorem Audited.snoc {logs : List LogRow} {r r' : JobRow} {l : LogRow} (h : Audited logs r)
    (hid : ∀ q ∈ logs, q.id < l.id) (hf : l.fromStatus = some r.status)
    (ht : l.toStatus = r'.status) (hstep : Allowed r.status r'.status)
    (hr : l.requeues = true → 1 ≤ r.generation ∧ r'.generation = r.generation + 1 ∧
      r'.attemptCount = 0)
    (hn : l.requeues = false → r'.generation = r.generation ∧
      r'.attemptCount = r.attemptCount + if r'.status = .processing then 1 else 0) :
    Audited (logs ++ [l]) r' := by
  constructor
  · refine List.pairwise_append.2 ⟨h.sorted, List.pairwise_singleton _ _, fun q hq p hp => ?_⟩
    rw [List.mem_singleton.1 hp]
    exact hid q hq
  · obtain ⟨l₀, hl₀, hstart⟩ := h.first
    exact ⟨l₀, by simp [List.head?_append, Option.mem_def.1 hl₀], hstart⟩
  · refine List.isChain_append.2 ⟨h.chain, List.isChain_singleton _, fun q hq p hp => ?_⟩
    obtain rfl : l = p := by simpa using hp
    obtain ⟨q', hq', hlast⟩ := h.last
    obtain rfl := Option.some.inj (Option.mem_def.1 hq ▸ Option.mem_def.1 hq')
    exact ⟨hlast ▸ hf, by rw [hlast, ht]; exact hstep⟩
  · exact ⟨l, by simp, ht⟩
  · rw [List.countP_append, h.requeues]
    cases hl : l.requeues with
    | true =>
      obtain ⟨h₁, hgen, -⟩ := hr hl
      rw [hgen]
      simp [hl]
      omega
    | false => simp [hl, (hn hl).1]
  · cases hl : l.requeues with
    | true =>
      rw [sinceRequeue, List.rtakeWhile_concat_neg _ _ _ (by simp [hl]), (hr hl).2.2]
      rfl
    | false =>
      rw [sinceRequeue, List.rtakeWhile_concat_pos _ _ _ (by simp [hl]), List.countP_append,
        ← sinceRequeue, h.attempts, (hn hl).2]
      simp [ht]

/-- What leaves the log and these columns alone keeps it true. -/
theorem Audited.keep {logs : List LogRow} {r r' : JobRow} (h : Audited logs r)
    (hs : r'.status = r.status) (hg : r'.generation = r.generation)
    (ha : r'.attemptCount = r.attemptCount) : Audited logs r' :=
  ⟨h.sorted, h.first, h.chain, hs ▸ h.last, hg ▸ h.requeues, ha ▸ h.attempts⟩

section Steps

variable {cfg : Config} {s s' : State}

/-- Every step keeps the log and the row together: what a claim gives up was in
    progress, and what is requeued is dead. -/
theorem Change.audited {lease : ℕ} {id : JobId} {lo hi : Env} {op : Op} {a : Answer}
    {v v' : JobView} (hc : Change lease id lo hi op a v v') (hs : v.Sound)
    (hfailed : ∀ r ∈ v.row, r.status ≠ .failed)
    (hspent : ∀ r ∈ v.row, r.status = .pending → r.attemptCount < r.maxRetries + 1)
    (hv : ∀ r ∈ v.row, Audited v.logs r) : ∀ r ∈ v'.row, Audited v'.logs r := by
  have live {r : JobRow} {g t : ℕ} (hr : r.Claimable g t) (hne : r.status ≠ .failed) :
      r.status = .pending ∨ r.status = .processing := by
    have := hr.live
    cases hst : r.status <;> simp_all [JobRow.terminal]
  intro r' hr'
  cases hc with
  | claimed _ hr _ _ _ _ _ _ hn =>
    obtain rfl := Option.some.inj hr'
    refine (hv _ rfl).snoc hn.1 rfl rfl ?_ (by simp [LogRow.requeues]) (by simp [JobRow.claim])
    rcases live hr (hfailed _ rfl) with hst | hst <;> rw [hst]
    · exact .claim
    · exact .reclaim
  | exhausted _ hr hbudget _ _ _ _ hn =>
    obtain rfl := Option.some.inj hr'
    refine (hv _ rfl).snoc hn.1 rfl rfl ?_ (by simp [LogRow.requeues]) (by simp [JobRow.bury])
    rcases live hr (hfailed _ rfl) with hst | hst
    · exact absurd (hspent _ rfl hst) (Nat.not_lt.2 hbudget)
    · rw [hst]
      exact .bury
  | renewed =>
    obtain rfl := Option.some.inj hr'
    exact (hv _ rfl).keep rfl rfl rfl
  | @finished _ e _ _ _ _ _ _ _ _ _ _ he hown _ _ _ hn =>
    obtain rfl := Option.some.inj hr'
    obtain ⟨-, hst, -⟩ := ownedBy_iff.1 hown
    refine (hv _ rfl).snoc hn.1 (by rw [hst]) rfl ?_ (by simp [LogRow.requeues]) fun _ => ?_
    · rw [hst]
      cases e with
      | completed => exact .complete
      | pending => exact absurd rfl he
      | dead => exact .bury
    · cases e <;> simp [JobRow.finish, Ending.status]
  | retried _ _ hown _ _ _ _ _ hn =>
    obtain rfl := Option.some.inj hr'
    obtain ⟨-, hst, -⟩ := ownedBy_iff.1 hown
    refine (hv _ rfl).snoc hn.1 (by rw [hst]) rfl ?_ (by simp [LogRow.requeues])
      (by simp [JobRow.finish])
    rw [hst]
    exact .retry
  | published => exact hv _ hr'
  | dropped => exact hv _ hr'
  | created =>
    obtain rfl := Option.some.inj hr'
    obtain ⟨rfl, -⟩ := hs.absent rfl
    exact ⟨List.pairwise_singleton _ _, ⟨_, rfl, rfl, rfl⟩, List.isChain_singleton _,
      ⟨_, rfl, rfl⟩, rfl, rfl⟩
  | @requeued r _ _ _ _ _ _ _ _ hstatus _ _ _ _ _ _ hn =>
    obtain rfl := Option.some.inj hr'
    have hst : r.status = .dead := hstatus.resolve_right (hfailed _ rfl)
    refine (hv _ rfl).snoc hn.1 rfl rfl ?_ (fun _ => ⟨hs.one_le _ rfl, rfl, rfl⟩)
      (by simp [LogRow.requeues, hst])
    rw [hst]
    exact .requeue

theorem Run.audited {s₀ : State} {es : List Event} (h : Run cfg s₀ es s) (h₀ : Initial s₀)
    {id : JobId} (hnew : s₀.mysql.store.job? id = none) :
    ∀ r ∈ (s.mysql.store.view id).row, Audited (s.mysql.store.view id).logs r := by
  induction h with
  | refl => simp [Tables.view, hnew]
  | step h hs ih =>
    have hk := h.kept h₀
    rcases (step_cases hs).view hk id with ⟨hsame, -⟩ | ⟨_, _, _, _, _, _, _, -, -, hchange, -⟩
    · rwa [hsame]
    · have hcovered := (h.life h₀ id).covered (h₀.sound id) (by simp [Tables.view, hnew])
      exact hchange.audited (hk.sound id) (fun r hr => (hcovered r hr).not_failed)
        (fun r hr => (h.budgeted h₀ hnew r hr).pending) ih

end Steps

/-! ## The log -/

/-- In every run, the log of a job that was created in it, in the order of its ids,
    starts with the creation, goes on from status to status in allowed steps up to
    that of the row, and has an entry for each requeue, and one for each attempt
    since the last one. -/
theorem audit_replays {cfg : Config} {s₀ s : State} {es : List Event} (h₀ : Initial s₀)
    (h : Run cfg s₀ es s) {id : JobId} (hnew : s₀.mysql.store.job? id = none) {r : JobRow}
    (hr : s.mysql.store.job? id = some r) : Audited (s.mysql.store.logsOf id) r :=
  h.audited h₀ hnew r hr

/-- The log of the first job, once it is completed. -/
theorem audit_replays_first :
    let s := (State.after (firstClaim ++ finishing "w" 4 0 .ok)).1
    (s.mysql.store.logsOf firstJob).map (·.toStatus) = [.pending, .processing, .completed] ∧
    ∃ r, s.mysql.store.job? firstJob = some r ∧ Audited (s.mysql.store.logsOf firstJob) r :=
  ⟨by decide, _, rfl, audit_replays .fresh (Run.play _ _ _) rfl rfl⟩

end ScaleQueue
