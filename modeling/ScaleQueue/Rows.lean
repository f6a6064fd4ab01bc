import ScaleQueue.Budget

/-!
# The columns of a row agree

Five statements write to the row of a job, each to some of its columns. Together
they keep the columns coherent (`Coherent`): a row has a lease when it is in
progress, a time of processing when it is over, and counts its retries. The job
that `Claim` puts together in memory is the row that it committed.
-/

namespace ScaleQueue

open Locking

/-- What the columns of a row say about each other at time `t`. -/
structure Coherent (r : JobRow) (t : ℕ) : Prop where
  owner : r.leaseOwner.isSome ↔ r.status = .processing
  lease : r.leaseUntil.isSome ↔ r.status = .processing
  processed : r.processedAt.isSome ↔ r.terminal
  retries : r.retryCount = r.attemptCount - 1
  attempted : r.status = .processing → 1 ≤ r.attemptCount ∧ r.nextAttemptAt ≤ t

theorem Coherent.wait {r : JobRow} {t t' : ℕ} (h : Coherent r t) (ht : t ≤ t') : Coherent r t' :=
  { h with attempted := fun hst => (h.attempted hst).imp_right fun hle => Nat.le_trans hle ht }

/-- Every change keeps the columns coherent. -/
theorem Change.coherent {lease : ℕ} {id : JobId} {lo hi : Env} {op : Op} {a : Answer} {t : ℕ}
    {v v' : JobView} (hc : Change lease id lo hi op a v v') (hhi : hi.now ≤ t)
    (hv : ∀ r ∈ v.row, Coherent r t) : ∀ r ∈ v'.row, Coherent r t := by
  intro r' hr'
  cases hc with
  | @claimed _ _ r _ _ _ _ _ _ _ hr =>
    obtain rfl := Option.some.inj hr'
    -- A row that can be claimed is due, and not over.
    have hdue := hr.not_early
    have hold := hv r rfl
    have hlive : r.processedAt.isSome = false := by
      simpa using mt hold.processed.1 hr.live
    refine ⟨by simp [JobRow.claim], by simp [JobRow.claim], ?_, rfl, fun _ => ⟨?_, ?_⟩⟩
    · simp [JobRow.claim, JobRow.terminal, hlive]
    · exact Nat.le_add_left _ _
    · simp only [JobRow.early, decide_eq_false_iff_not, not_lt] at hdue
      show r.nextAttemptAt ≤ t
      omega
  | exhausted =>
    obtain rfl := Option.some.inj hr'
    exact ⟨by simp [JobRow.bury], by simp [JobRow.bury], by simp [JobRow.bury, JobRow.terminal],
      (hv _ rfl).retries, by simp [JobRow.bury]⟩
  | renewed _ _ hown =>
    obtain rfl := Option.some.inj hr'
    obtain ⟨-, hst, -⟩ := ownedBy_iff.1 hown
    have hold := hv _ rfl
    exact ⟨hold.owner, by simp [JobRow.renew, hst], hold.processed, hold.retries, hold.attempted⟩
  | @finished _ e _ _ _ _ _ _ _ _ _ _ he =>
    obtain rfl := Option.some.inj hr'
    obtain ⟨hrun, hwait, hover⟩ : e.status ≠ .processing ∧ e.status ≠ .pending ∧
        (e.status = .completed ∨ e.status = .dead) := by
      cases e <;> simp_all [Ending.status]
    exact ⟨by simp [JobRow.finish, hrun], by simp [JobRow.finish, hrun],
      by simp [JobRow.finish, JobRow.terminal, hwait, hover], (hv _ rfl).retries,
      fun h => absurd h hrun⟩
  | retried =>
    obtain rfl := Option.some.inj hr'
    exact ⟨by simp [JobRow.finish], by simp [JobRow.finish],
      by simp [JobRow.finish, JobRow.terminal], (hv _ rfl).retries, by simp [JobRow.finish]⟩
  | published => exact hv _ hr'
  | dropped => exact hv _ hr'
  | created =>
    obtain rfl := Option.some.inj hr'
    exact ⟨by simp [NewJob.row], by simp [NewJob.row], by simp [NewJob.row, JobRow.terminal], rfl,
      by simp [NewJob.row]⟩
  | requeued =>
    obtain rfl := Option.some.inj hr'
    exact ⟨by simp [JobRow.requeue], by simp [JobRow.requeue],
      by simp [JobRow.requeue, JobRow.terminal], rfl, by simp [JobRow.requeue]⟩

theorem Life.coherent {lease : ℕ} {id : JobId} {v₀ v : JobView} {t₀ t : ℕ}
    {h : List (Op × Answer)} (hl : Life lease id v₀ t₀ h v t)
    (h₀ : ∀ r ∈ v₀.row, Coherent r t₀) : ∀ r ∈ v.row, Coherent r t := by
  induction hl with
  | start => exact h₀
  | wait _ ht ih => exact fun r hr => (ih r hr).wait ht
  | change _ hc hhi ih => exact hc.coherent hhi ih

/-- The columns of a job that was created in the run are coherent. -/
theorem Run.coherent {cfg : Config} {s₀ s : State} {es : List Event} (h : Run cfg s₀ es s)
    (h₀ : Initial s₀) {id : JobId} (hnew : s₀.mysql.store.job? id = none) {r : JobRow}
    (hr : s.mysql.store.job? id = some r) : Coherent r s.mysql.clock :=
  (h.life h₀ id).coherent (by simp [Tables.view, hnew]) r hr

/-- The job in memory is the row that `Claim` has committed. -/
theorem Kept.claimed_row {cfg : Config} {m m' : MySQL} (hk : Kept cfg m) {sid : Sid} {how : Closing}
    {id : JobId} {g : ℕ} {w : WorkerId} {j : Job}
    (hc : m.close sid how = some (m', .committed (.claim id g w) (.job j))) :
    ∃ r, m'.store.job? id = some r ∧ j.id = id ∧ j.generation = r.generation ∧
      j.attemptCount = r.attemptCount ∧ j.retryCount = r.retryCount ∧ j.status = r.status ∧
      r.leaseOwner = some j.leaseOwner ∧ j.leaseOwner = w := by
  obtain ⟨lo, hi, hchange, -⟩ := hk.changes hc rfl
  generalize m.store.view id = v at hchange
  generalize hv' : m'.store.view id = v' at hchange
  cases hchange with
  | claimed hid => exact ⟨_, congrArg JobView.row hv', hid, rfl, rfl, rfl, rfl, rfl, rfl⟩

/-! ## Rows -/

/-- In every run, the columns of a job that was created in it are coherent: it has an
    owner and a lease exactly when it is in progress, and a time of processing exactly
    when it is over; it counts its retries; an attempt is not before its time; a
    pending job has an attempt left; and generations start at 1. Every job that
    `Claim` returns is the row that it committed. -/
theorem row_coherent {cfg : Config} {s₀ s : State} {es : List Event} (h₀ : Initial s₀)
    (h : Run cfg s₀ es s) {id : JobId} (hnew : s₀.mysql.store.job? id = none) :
    (∀ r, s.mysql.store.job? id = some r →
      (r.leaseOwner.isSome ↔ r.status = .processing) ∧
      (r.leaseUntil.isSome ↔ r.status = .processing) ∧
      (r.processedAt.isSome ↔ r.status = .completed ∨ r.status = .dead) ∧
      r.retryCount = max (r.attemptCount - 1) 0 ∧
      (r.status = .processing → 1 ≤ r.attemptCount ∧ r.nextAttemptAt ≤ s.mysql.clock) ∧
      (r.status = .pending → r.attemptCount ≤ r.maxRetries) ∧ 1 ≤ r.generation) ∧
    ∀ sid how db g w j,
      s.mysql.close sid how = some (db, .committed (.claim id g w) (.job j)) →
      ∃ r, db.store.job? id = some r ∧ j.id = id ∧ j.generation = r.generation ∧
        j.attemptCount = r.attemptCount ∧ j.retryCount = r.retryCount ∧ j.status = r.status ∧
        r.leaseOwner = some j.leaseOwner ∧ j.leaseOwner = w := by
  have hk := h.kept h₀
  refine ⟨fun r hr => ?_, fun sid how db g w j hc => hk.claimed_row hc⟩
  have hcoh := h.coherent h₀ hnew hr
  refine ⟨hcoh.owner, hcoh.lease, hcoh.processed, ?_, hcoh.attempted, fun hst => ?_, ?_⟩
  · rw [Nat.max_zero]
    exact hcoh.retries
  · exact Nat.lt_succ_iff.1 ((h.budgeted h₀ hnew r hr).pending hst)
  · exact (hk.sound id).one_le r hr

/-- The first job, put back after its first attempt. -/
theorem row_coherent_first :
    let s := (State.after (firstClaim ++ finishing "w" 4 0 (.failed "no" false))).1
    ∃ r, s.mysql.store.job? firstJob = some r ∧ r.status = .pending ∧ r.attemptCount = 1 ∧
      r.retryCount = max (r.attemptCount - 1) 0 ∧ r.attemptCount ≤ r.maxRetries := by
  have h := (row_coherent .fresh (Run.play (.defaults id) .fresh
    (firstClaim ++ finishing "w" 4 0 (.failed "no" false)))
    (show State.fresh.mysql.store.job? firstJob = none from rfl)).1 _ rfl
  obtain ⟨-, -, -, hretries, -, hpending, -⟩ := h
  exact ⟨_, rfl, by decide, by decide, hretries, hpending (by decide)⟩

end ScaleQueue
