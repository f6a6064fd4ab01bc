import Mathlib.Tactic.IntervalCases
import ScaleQueue.Timely

/-!
# Retries wait

`retry.ExponentialDelay` computes its delay without an overflow
(`exponentialDelay64_eq`). `Finish` adds it to the time and writes the sum to
`next_attempt_at`, which from then on does not go back within the generation
(`Change.notBefore`): whoever finishes a later attempt has begun after its claim, and
so after the time that the claim had to wait for (`Begun`). Until then, `Claim` finds
the row early, or superseded, or in progress, or over.
-/

namespace ScaleQueue

open Locking

/-! ## The delay -/

/-- The value of an `int64` after an operation. -/
def wrap64 (n : ℤ) : ℤ := n.bmod (2 ^ 64)

/-- `retry.ExponentialDelay` as it is computed, in 64 bits. -/
def exponentialDelay64 (attempt : ℤ) (jitter : ℕ) : ℤ :=
  let attempt := if attempt < 0 then 0 else attempt
  let attempt := if 8 < attempt then 8 else attempt
  let cap := wrap64 (2000000000 * wrap64 (2 ^ attempt.toNat))
  let cap := if 300000000000 < cap then 300000000000 else cap
  wrap64 (cap / 2 + wrap64 (jitter % wrap64 (cap / 2 + 1)))

theorem wrap64_eq {n : ℤ} (h : 0 ≤ n) (h' : n < 2 ^ 63) : wrap64 n = n :=
  Int.bmod_eq_of_le (by omega) (by omega)

/-- Nothing overflows. -/
theorem exponentialDelay64_eq (attempt : ℤ) (jitter : ℕ) :
    exponentialDelay64 attempt jitter = exponentialDelay attempt.toNat jitter := by
  have hclamp : (if 8 < if attempt < 0 then 0 else attempt then 8
      else if attempt < 0 then 0 else attempt) = ((min attempt.toNat 8 : ℕ) : ℤ) := by
    split_ifs <;> omega
  have hk : min attempt.toNat 8 ≤ 8 := Nat.min_le_right _ _
  -- Each factor is generalized once its bound is known, and nothing wraps around.
  rw [exponentialDelay64, exponentialDelay, hclamp]
  generalize min attempt.toNat 8 = k at hk
  rw [Int.toNat_natCast]
  have hpow : (2 : ℤ) ^ k ≤ 2 ^ 8 ∧ (1 : ℤ) ≤ 2 ^ k ∧ (2 : ℤ) ^ k = ((2 ^ k : ℕ) : ℤ) := by
    interval_cases k <;> simp
  generalize (2 : ℤ) ^ k = p at hpow
  obtain ⟨hle, hpos, rfl⟩ := hpow
  generalize 2 ^ k = p at hle hpos
  rw [wrap64_eq (n := p) (by omega) (by omega),
    wrap64_eq (n := 2000000000 * p) (by omega) (by omega)]
  have hcap : (if (300000000000 : ℤ) < 2000000000 * p then 300000000000 else 2000000000 * (p : ℤ)) =
      ((min (2000000000 * p) 300000000000 : ℕ) : ℤ) := by
    split_ifs <;> omega
  have hcap_le : min (2000000000 * p) 300000000000 ≤ 300000000000 := Nat.min_le_right _ _
  rw [hcap]
  generalize min (2000000000 * p) 300000000000 = cap at hcap_le
  rw [wrap64_eq (n := cap / 2 + 1) (by omega) (by omega)]
  have hdraw : (jitter : ℤ) % (cap / 2 + 1) = ((jitter % (cap / 2 + 1) : ℕ) : ℤ) := by simp
  have hdraw_lt : jitter % (cap / 2 + 1) < cap / 2 + 1 := Nat.mod_lt _ (by omega)
  rw [hdraw]
  generalize jitter % (cap / 2 + 1) = draw at hdraw_lt
  rw [wrap64_eq (n := draw) (by omega) (by omega), wrap64_eq (by omega) (by omega)]
  push_cast
  rfl

/-- The delay before the attempt after attempt `n`, in microseconds. -/
theorem exponentialDelay_bounds {n : ℕ} (hn : 1 ≤ n) (jitter : ℕ) :
    min (2 ^ (n - 1)) 150 * 1000000 ≤ exponentialDelay (n - 1) jitter / 1000 ∧
      exponentialDelay (n - 1) jitter / 1000 ≤ min (2 ^ n) 300 * 1000000 := by
  obtain ⟨k, rfl⟩ : ∃ k, n = k + 1 := ⟨n - 1, by omega⟩
  rw [Nat.add_sub_cancel]
  -- From the ninth attempt on, both bounds are the last ones.
  have hpow : min (2 ^ k) 150 = min (2 ^ min k 8) 150 ∧
      min (2 ^ (k + 1)) 300 = min (2 * 2 ^ min k 8) 300 := by
    rcases Nat.le_total k 8 with hk | hk
    · rw [Nat.min_eq_left hk, Nat.pow_succ, Nat.mul_comm]
      exact ⟨rfl, rfl⟩
    · have : 2 ^ 8 ≤ 2 ^ k := Nat.pow_le_pow_right (by decide) hk
      rw [Nat.min_eq_right hk, Nat.pow_succ]
      omega
  rw [hpow.1, hpow.2, exponentialDelay]
  generalize 2 ^ min k 8 = p
  have hdraw : jitter % (min (2000000000 * p) 300000000000 / 2 + 1) <
      min (2000000000 * p) 300000000000 / 2 + 1 := Nat.mod_lt _ (by omega)
  generalize jitter % (min (2000000000 * p) 300000000000 / 2 + 1) = draw at hdraw
  omega

/-! ## Rows -/

section Changes

variable {lease : ℕ} {id : JobId} {lo hi : Env} {op : Op} {a : Answer} {v v' : JobView}

/-- A job in progress had to wait until `t` at most. -/
def Due (t : ℕ) (row : Option JobRow) : Prop :=
  ∀ r ∈ row, r.status = .processing → r.nextAttemptAt ≤ t

theorem Due.of_status {t : ℕ} {r : JobRow} (h : r.status ≠ .processing) : Due t (some r) := by
  rintro _ ⟨⟩ hst
  exact absurd hst h

theorem Change.due (hc : Change lease id lo hi op a v v') {t : ℕ} (h : Due t v.row)
    (ht : hi.now ≤ t) : Due t v'.row := by
  cases hc with
  | claimed _ hr _ _ _ ht₁ ht₂ hhi =>
    rintro _ ⟨⟩ -
    have := hr.not_early
    simp only [JobRow.early, decide_eq_false_iff_not] at this
    simp only [JobRow.claim]
    omega
  | exhausted => exact .of_status (by simp [JobRow.bury])
  | @renewed _ r =>
    rintro _ ⟨⟩ hst
    exact h r rfl hst
  | @finished _ e => exact .of_status (by cases e <;> simp [JobRow.finish, Ending.status])
  | retried => exact .of_status (by simp [JobRow.finish])
  | published => exact h
  | dropped => exact h
  | created => exact .of_status (by simp [NewJob.row])
  | requeued => exact .of_status (by simp [JobRow.requeue])

/-- Generation `g` of the job is not to be claimed before `u`. -/
def JobRow.NotBefore (g u : ℕ) (r : JobRow) : Prop :=
  g < r.generation ∨ r.generation = g ∧ u ≤ r.nextAttemptAt

/-- `next_attempt_at` does not go back, provided that a `Finish` has begun when its
    attempt was due. -/
theorem Change.notBefore (hc : Change lease id lo hi op a v v') {g u : ℕ} {r : JobRow}
    (hr : v.row = some r) (h : r.NotBefore g u)
    (hfinish : ∀ j e message delay, op = .finish j e message delay → r.nextAttemptAt ≤ lo.now) :
    ∃ r', v'.row = some r' ∧ r'.NotBefore g u := by
  cases hc with
  | claimed =>
    obtain rfl := Option.some.inj hr
    exact ⟨_, rfl, h⟩
  | exhausted =>
    obtain rfl := Option.some.inj hr
    exact ⟨_, rfl, h⟩
  | renewed =>
    obtain rfl := Option.some.inj hr
    exact ⟨_, rfl, h⟩
  | finished =>
    obtain rfl := Option.some.inj hr
    have := hfinish _ _ _ _ rfl
    exact ⟨_, rfl, h.imp_right fun h => ⟨h.1, by simp only [JobRow.finish]; omega⟩⟩
  | retried =>
    obtain rfl := Option.some.inj hr
    have := hfinish _ _ _ _ rfl
    exact ⟨_, rfl, h.imp_right fun h => ⟨h.1, by simp only [JobRow.finish]; omega⟩⟩
  | published => exact ⟨r, hr, h⟩
  | dropped => exact ⟨r, hr, h⟩
  | created => cases hr
  | requeued =>
    obtain rfl := Option.some.inj hr
    refine ⟨_, rfl, .inl ?_⟩
    simp only [JobRow.requeue]
    rcases h with h | h <;> omega

/-- A `Claim` of a generation that is not to be claimed yet changes nothing. -/
theorem Change.claim_waits {g u : ℕ} {owner : WorkerId}
    (hc : Change lease id lo hi (.claim id g owner) a v v') {r : JobRow} (hr : v.row = some r)
    (h : r.NotBefore g u) : ∃ t, u ≤ t ∧ t ≤ hi.now ∧
      (v'.row = some (r.claim owner lease t) ∨ v'.row = some (r.bury t)) := by
  have late {t : ℕ} (hr : r.Claimable g t) : u ≤ t := by
    have hearly := hr.not_early
    have hgen := hr.generation_eq
    simp only [JobRow.early, decide_eq_false_iff_not] at hearly
    rcases h with h | h <;> omega
  cases hc with
  | @claimed _ _ _ _ _ t₁ t₂ _ _ _ hcl =>
    obtain rfl := Option.some.inj hr
    exact ⟨t₂, (late hcl).trans ‹_›, by omega, .inl rfl⟩
  | @exhausted _ _ _ _ _ t₁ t₂ _ _ _ hcl =>
    obtain rfl := Option.some.inj hr
    exact ⟨t₂, (late hcl).trans ‹_›, by omega, .inr rfl⟩

/-- `retry_count` is the number of attempts before. -/
theorem Change.retryCount (hc : Change lease id lo hi op a v v') {j : Job}
    (hj : claimed? (op, a) = some j) : j.attemptCount = j.retryCount + 1 := by
  cases hc <;> cases hj
  rfl

/-- A job in progress in the attempt of `j` had to wait until `t` at most. -/
def DueIn (j : Job) (t : ℕ) (row : Option JobRow) : Prop :=
  ∀ r ∈ row, r.status = .processing → r.In j → r.nextAttemptAt ≤ t

/-- No change puts the job back into an attempt that it has been in. -/
theorem Change.dueIn (hc : Change lease id lo hi op a v v') {j : Job} {t : ℕ}
    (h : DueIn j t v.row) (hj : ∃ r ∈ v.row, j.Upto r) : DueIn j t v'.row := by
  have idle {r : JobRow} (h : r.status ≠ .processing) : DueIn j t (some r) := by
    rintro _ ⟨⟩ hst
    exact absurd hst h
  cases hc with
  | claimed =>
    rintro _ ⟨⟩ - hin
    obtain ⟨_, ⟨⟩, hup⟩ := hj
    have hg := hin.generation
    have ha := hin.attemptCount
    simp only [JobRow.claim] at hg ha
    rcases hup with hup | hup <;> omega
  | exhausted => exact idle (by simp [JobRow.bury])
  | @renewed _ r =>
    rintro _ ⟨⟩ hst hin
    exact h r rfl hst ⟨hin.1, hin.2, hin.3, hin.4, hin.5, hin.6⟩
  | @finished _ e => exact idle (by cases e <;> simp [JobRow.finish, Ending.status])
  | retried => exact idle (by simp [JobRow.finish])
  | published => exact h
  | dropped => exact h
  | created => exact idle (by simp [NewJob.row])
  | requeued => exact idle (by simp [JobRow.requeue])

variable {v₀ : JobView} {t₀ t : ℕ} {h : List (Op × Answer)}

theorem Life.due (hl : Life lease id v₀ t₀ h v t) (h₀ : v₀.row = none) : Due t v.row := by
  induction hl with
  | start =>
    rw [h₀]
    exact nofun
  | wait _ hle ih => exact fun r hr hst => (ih r hr hst).trans hle
  | change _ hc hle ih => exact hc.due ih hle

theorem Life.retryCount (hl : Life lease id v₀ t₀ h v t) :
    ∀ j ∈ claims h, j.attemptCount = j.retryCount + 1 := by
  induction hl with
  | start => exact nofun
  | wait _ _ ih => exact ih
  | @change h v v' t lo hi op a _ hc _ ih =>
    intro j hj
    rw [claims_append] at hj
    rcases List.mem_append.1 hj with hj | hj
    · exact ih j hj
    · obtain ⟨x, hx, hj⟩ := List.mem_filterMap.1 hj
      obtain rfl := List.mem_singleton.1 hx
      exact hc.retryCount hj

end Changes

/-! ## Runs -/

section Runs

variable {cfg : Config} {s₀ s s' : State} {es es' : List Event} {sid : Sid} {id : JobId}

/-- Whoever is about to finish an attempt has claimed it, and has begun when it was
    due. -/
structure Begun (id : JobId) (es : List Event) (s : State) : Prop where
  claimed : ∀ sid y j e message delay, s.mysql.sessions sid = some y →
    y.op = .finish j e message delay → j.id = id → j ∈ claims (history id (closings es))
  due : ∀ sid y j e message delay, s.mysql.sessions sid = some y →
    y.op = .finish j e message delay → j.id = id → DueIn j y.began (s.mysql.store.job? id)

theorem Latest.mem_claims {j : Job} (h : Latest es j) :
    j ∈ claims (history j.id (closings es)) := by
  obtain ⟨h₁, h₂, heq, -⟩ := h
  rw [heq, claims_append, claims_cons]
  exact List.mem_append_right _ (List.mem_append_left _ (Option.mem_toList.2 rfl))

/-- A `Finish` is older than a step, or was opened in it by the worker that has its job
    in hand. -/
theorem Stepped.finishing {a : Action} (hs : Stepped cfg s a s' es') (hp : Paired none s)
    {y : Conn} {j : Job} {e : Ending} {message : String} {delay : ℕ}
    (hy : s'.mysql.sessions sid = some y) (hop : y.op = .finish j e message delay) :
    (∃ y', s.mysql.sessions sid = some y' ∧ y'.op = y.op ∧ y'.began = y.began) ∨
      y.began = s.mysql.clock ∧ ∃ w x, s.workers w = some x ∧ x.phase.job? = some j := by
  cases hs.continues hp hy with
  | stays hy' hop' hbegan => exact .inl ⟨_, hy', hop'.symm, hbegan.symm⟩
  | runs _ hy' hop' hbegan => exact .inl ⟨_, hy', hop'.symm, hbegan.symm⟩
  | answered hy' hop' hbegan => exact .inl ⟨_, hy', hop'.symm, hbegan.symm⟩
  | opened _ hbegan _ hby =>
    refine .inr ⟨hbegan, ?_⟩
    generalize sid.party = p at hby
    rw [hop] at hby
    cases hby with
    | finish hw hx => exact ⟨_, _, hw, by rw [hx]; rfl⟩

theorem Begun.step (h : Begun id es s) (hrun : Run cfg s₀ es s) (h₀ : Initial s₀)
    (hnew : s₀.mysql.store.job? id = none) {a : Action} (hs : Stepped cfg s a s' es') :
    Begun id (es ++ es') s' := by
  have hp := hrun.paired h₀
  have hlife := hrun.life h₀ id
  have hdue : Due s.mysql.clock (s.mysql.store.job? id) := hlife.due hnew
  have hview := hs.view (hrun.kept h₀) id
  constructor
  · intro sid y j e message delay hy hop hid
    rw [closings_append, history_append, claims_append]
    refine List.mem_append_left _ ?_
    rcases hs.finishing hp hy hop with ⟨y', hy', hop', -⟩ | ⟨-, w, x, hw, hx⟩
    · exact h.claimed sid y' j e message delay hy' (hop'.trans hop) hid
    · exact hid ▸ ((hrun.fenced h₀).latest w x j hw hx).mem_claims
  · intro sid y j e message delay hy hop hid
    rcases hs.finishing hp hy hop with ⟨y', hy', hop', hbegan⟩ | ⟨hbegan, -⟩
    · have hold := h.due sid y' j e message delay hy' (hop'.trans hop) hid
      have hclaimed := h.claimed sid y' j e message delay hy' (hop'.trans hop) hid
      rw [hbegan] at hold
      rcases hview with ⟨hsame, -⟩ | ⟨_, _, _, _, _, _, _, -, -, hchange, -⟩
      · have hsame := congrArg JobView.row hsame
        rw [Tables.view_row, Tables.view_row] at hsame
        rwa [hsame]
      · exact hchange.dueIn hold (hlife.claims_nodup.2 j hclaimed)
    · -- The attempt was due when it was claimed, which is over.
      suffices hnow : Due s.mysql.clock (s'.mysql.store.job? id) from
        fun r hr hst _ => hbegan ▸ hnow r hr hst
      rcases hview with ⟨hsame, -⟩ | ⟨_, _, _, _, _, _, _, -, -, hchange, -, hhi, -⟩
      · have hsame := congrArg JobView.row hsame
        rw [Tables.view_row, Tables.view_row] at hsame
        rwa [hsame]
      · exact hchange.due hdue hhi

theorem Run.begun (h : Run cfg s₀ es s) (h₀ : Initial s₀) (hnew : s₀.mysql.store.job? id = none) :
    Begun id es s := by
  induction h with
  | refl => exact ⟨by simp [h₀.sessions], by simp [h₀.sessions]⟩
  | step h hs ih => exact ih.step h h₀ hnew (step_cases hs)

/-- A `Finish` that commits has begun when its attempt was due. -/
theorem Run.finish_due (h : Run cfg s₀ es s) (h₀ : Initial s₀)
    (hnew : s₀.mysql.store.job? id = none) {how : Closing} {db : MySQL} {j : Job} {e : Ending}
    {message : String} {delay : ℕ} {a : Answer}
    (hc : s.mysql.close sid how = some (db, .committed (.finish j e message delay) a))
    (hid : j.id = id) {y : Conn} (hy : s.mysql.sessions sid = some y) {r : JobRow}
    (hr : s.mysql.store.job? id = some r) : r.nextAttemptAt ≤ y.began := by
  subst hid
  obtain ⟨y', hy', hop, -⟩ := commit_session hc
  obtain rfl := Option.some.inj (hy.symm.trans hy')
  obtain ⟨q, hq, hst, hin⟩ := (h.finish h₀ hc).1
  obtain rfl := Option.some.inj (hr.symm.trans hq)
  exact (h.begun h₀ hnew).due sid y j e message delay hy hop rfl r hr hst hin

/-- A generation that is not to be claimed before `u` stays so. -/
theorem Run.notBefore (h : Run cfg s₀ es s) (h₀ : Initial s₀)
    (hnew : s₀.mysql.store.job? id = none) (h' : Run cfg s es' s') {g u : ℕ}
    (hr : ∃ r, s.mysql.store.job? id = some r ∧ r.NotBefore g u) :
    ∃ r, s'.mysql.store.job? id = some r ∧ r.NotBefore g u := by
  induction h' with
  | refl => exact hr
  | step hx hs ih =>
    obtain ⟨r, hr, hnot⟩ := ih
    have hrun := h.trans hx
    rcases (step_cases hs).view (hrun.kept h₀) id with
      ⟨hsame, -⟩ | ⟨sid, how, db, op, a, lo, hi, -, hc, hchange, hone, -, y, hy, hop, hbegan⟩
    · exact ⟨r, (congrArg JobView.row hsame).trans hr, hnot⟩
    · refine hchange.notBefore hr hnot fun j e message delay hfin => ?_
      subst hfin
      have hid : about (.finish j e message delay) a = some id := hchange.about_eq outboxOf_jobId
      rw [hbegan]
      exact hrun.finish_due h₀ hnew hc (Option.some.inj hid) hy hr

/-- A `Claim` of a generation that is not to be claimed before `u` is refused, unless
    it has read the clock since. -/
theorem Kept.claim_waits {m m' : MySQL} (hk : Kept cfg m) {how : Closing} {c : Closed Answer Op}
    (hc : m.close sid how = some (m', c)) {y : Conn} (hy : m.sessions sid = some y) {g u : ℕ}
    {w : WorkerId} (hop : y.op = .claim id g w) {r : JobRow} (hr : m.store.job? id = some r)
    (hnot : r.NotBefore g u) :
    (m'.store = m.store ∧ ∀ q, answerOf c ≠ some (.job q)) ∨
      ∃ t, u ≤ t ∧ t ≤ m.clock ∧ (m'.store.job? id = some (r.claim w cfg.lease t) ∨
        m'.store.job? id = some (r.bury t)) := by
  rcases hk.ends hc hy hop (fun _ => rfl) with
    ⟨a, lo, hi, rfl, hchange, hhi, -⟩ | ⟨a, hi, rfl, hstore, hwhy, -⟩ | ⟨rfl, hstore, -⟩
  · obtain ⟨t, hu, ht, hrow⟩ := hchange.claim_waits hr hnot
    exact .inr ⟨t, hu, ht.trans hhi, hrow⟩
  · refine .inl ⟨hstore, fun q hq => ?_⟩
    obtain rfl := Option.some.inj hq
    cases hwhy
  · exact .inl ⟨hstore, by simp [answerOf]⟩

/-- A `Claim` that looks at the row too early gives up at once. -/
theorem exec_early {m m' : MySQL} {now : ℕ} (hx : m.exec sid now = some m') {y : Conn}
    (hy : m.sessions sid = some y) {g u : ℕ} {w : WorkerId} (hop : y.op = .claim id g w)
    (hrest : y.rest = y.op.script cfg) (hwrites : y.writes = []) {r : JobRow}
    (hr : m.store.job? id = some r) (hnot : r.NotBefore g u) (hnow : now < u) :
    ∃ y' b, m'.sessions sid = some y' ∧ y'.rest = .abort b ∧ y'.writes = [] ∧
      ∀ q, b ≠ .job q := by
  rw [hop] at hrest
  simp only [Server.exec, hy, hrest, Op.script, claim, selectForUpdate, hwrites, applyAll_nil,
    hr] at hx
  split at hx
  swap
  · cases hx
  split at hx
  swap
  · cases hx
  obtain rfl := Option.some.inj hx
  simp only [Server.goOn, Function.update_self, Option.some.injEq, exists_and_left,
    exists_eq_left']
  -- The order of the checks in `Claim`.
  by_cases hstale : r.generation ≠ g ∨ r.terminal
  · exact ⟨_, by rw [if_pos hstale], rfl, by simp⟩
  by_cases hbusy : r.status = .processing ∧ r.active now
  · exact ⟨_, by rw [if_neg hstale, if_pos hbusy], rfl, by simp⟩
  have hearly : r.early now = true := by
    have hg : r.generation = g := by by_contra hne; exact hstale (.inl hne)
    simp only [JobRow.early, decide_eq_true_eq]
    rcases hnot with hnot | hnot <;> omega
  exact ⟨_, by rw [if_neg hstale, if_neg hbusy, if_pos hearly], rfl, by simp⟩

/-- What a `Finish` to `PENDING` leaves. -/
theorem Run.retried (h : Run cfg s₀ es s) (h₀ : Initial s₀) {a : Action} {j : Job}
    {message : String} {delay : ℕ} {b : Answer} (hs : s.step cfg a = some (s', es'))
    (hc : .closed sid (.committed (.finish j .pending message delay) b) ∈ es') :
    ∃ r t, s.mysql.store.job? j.id = some r ∧ r.status = .processing ∧ r.In j ∧
      t ≤ s'.mysql.clock ∧
      s'.mysql.store.job? j.id = some (r.finish .pending message delay t) := by
  have hstep := step_cases hs
  obtain ⟨how, db, rfl, hclose, -, hstore⟩ := hstep.closed_mem hc
  have hclock : s.mysql.clock ≤ s'.mysql.clock := hstep.steps.clock_le
  obtain ⟨r, hr, hst, hin⟩ := (h.finish h₀ hclose).1
  obtain ⟨lo, hi, hchange, hhi, -⟩ := (h.kept h₀).changes hclose rfl
  have hrow : (s.mysql.store.view j.id).row = some r := hr
  rw [hstore]
  suffices ∃ t, t ≤ hi.now ∧
      (db.store.view j.id).row = some (r.finish .pending message delay t) by
    obtain ⟨t, ht, hrow⟩ := this
    exact ⟨r, t, hr, hst, hin, (ht.trans hhi).trans hclock, hrow⟩
  generalize s.mysql.store.view j.id = v at hchange hrow
  generalize db.store.view j.id = v' at hchange
  cases hchange with
  | finished _ _ he => exact absurd rfl he
  | @retried _ _ _ _ _ _ t₁ =>
    obtain rfl := Option.some.inj hrow
    exact ⟨t₁, by omega, rfl⟩

end Runs

/-! ## Retries -/

/-- `ExponentialDelay` doubles from between one and two seconds to between two and a
    half and five minutes, and nothing overflows. In every run, if an attempt of a
    job that was created in it ends with a `Finish` to `PENDING` at `t`, then its
    delay is drawn for the number of the attempt, and until `t + delay` no `Claim` of
    the generation returns the job: one that looks at the row before gives up without
    a write, and one that changes anything has read the clock since. -/
theorem retry_waits {cfg : Config} {s₀ s s' : State} {es es' : List Event} {a : Action}
    {sid : Sid} {j : Job} {message : String} {delay : ℕ} {b : Answer} (h₀ : Initial s₀)
    (h : Run cfg s₀ es s) (hnew : s₀.mysql.store.job? j.id = none)
    (hs : s.step cfg a = some (s', es'))
    (hc : .closed sid (.committed (.finish j .pending message delay) b) ∈ es') :
    (∀ n jitter, 1 ≤ n →
      exponentialDelay64 ((n - 1 : ℕ) : ℤ) jitter = exponentialDelay (n - 1) jitter ∧
      min (2 ^ (n - 1)) 150 * 1000000 ≤ exponentialDelay (n - 1) jitter / 1000 ∧
      exponentialDelay (n - 1) jitter / 1000 ≤ min (2 ^ n) 300 * 1000000) ∧
    1 ≤ j.attemptCount ∧ j.attemptCount = claimsIn j.generation (history j.id (closings es)) ∧
    (∃ jitter, delay = exponentialDelay (j.attemptCount - 1) jitter / 1000) ∧
    ∃ (r : JobRow) (t : ℕ),
      s'.mysql.store.job? j.id = some (r.finish .pending message delay t) ∧
      r.generation = j.generation ∧ t ≤ s'.mysql.clock ∧
      ∀ es₁ s₁, Run cfg s' es₁ s₁ → ∀ sid₁ y w, s₁.mysql.sessions sid₁ = some y →
        y.op = .claim j.id j.generation w →
        (∀ now s₂ es₂, y.rest = y.op.script cfg → y.writes = [] → now < t + delay →
          s₁.step cfg (.exec sid₁ now) = some (s₂, es₂) →
          ∃ y' c, s₂.mysql.sessions sid₁ = some y' ∧ y'.rest = .abort c ∧ y'.writes = [] ∧
            ∀ q, c ≠ .job q) ∧
        ∀ how s₂ es₂, s₁.step cfg (.close sid₁ how) = some (s₂, es₂) →
          (s₂.mysql.store = s₁.mysql.store ∧
            ∀ c, .closed sid₁ c ∈ es₂ → ∀ q, answerOf c ≠ some (.job q)) ∨
          ∃ q t', s₁.mysql.store.job? j.id = some q ∧ t + delay ≤ t' ∧ t' ≤ s₁.mysql.clock ∧
            (s₂.mysql.store.job? j.id = some (q.claim w cfg.lease t') ∨
              s₂.mysql.store.job? j.id = some (q.bury t')) := by
  obtain ⟨how, db, rfl, hclose, -⟩ := (step_cases hs).closed_mem hc
  have hrun := h.step hs
  obtain ⟨r, t, hr, -, hin, ht, hrow⟩ := h.retried h₀ hs hc
  have hlife := h.life h₀ j.id
  -- The attempt is the last claim of its generation.
  obtain ⟨-, h₁, h₂, heq, -⟩ := h.finish h₀ hclose
  have hclaim : j ∈ claims (history j.id (closings es)) := by
    rw [heq, claims_append, claims_cons]
    exact List.mem_append_right _ (List.mem_append_left _ (Option.mem_toList.2 rfl))
  have hindex := hlife.retryCount j hclaim
  have hattempts : j.attemptCount = claimsIn j.generation (history j.id (closings es)) := by
    have htally := (h.tally h₀ hnew hr).attempts_eq
    rwa [hin.attemptCount, hin.generation] at htally
  obtain ⟨_, _, result, jitter, -, hout⟩ := h.decided h₀ hclose
  have hdelay : delay = exponentialDelay j.retryCount jitter / 1000 := by
    cases result <;> simp_all [outcome]
  have hnot : (r.finish .pending message delay t).NotBefore j.generation (t + delay) :=
    .inr ⟨hin.generation, le_rfl⟩
  refine ⟨fun n jitter hn => ⟨?_, exponentialDelay_bounds hn jitter⟩, by omega, hattempts,
    ⟨jitter, by rw [hdelay, hindex, Nat.add_sub_cancel]⟩, r, t, hrow, hin.generation, ht, ?_⟩
  · rw [exponentialDelay64_eq, Int.toNat_natCast]
  · intro es₁ s₁ hx sid₁ y w hy hop
    obtain ⟨q, hq, hwait⟩ := hrun.notBefore h₀ hnew hx ⟨_, hrow, hnot⟩
    refine ⟨fun now s₂ es₂ hrest hwrites hnow hs₂ => ?_, fun how s₂ es₂ hs₂ => ?_⟩
    · cases step_cases hs₂ with
      | exec hdb => exact exec_early hdb hy hop hrest hwrites hq hwait hnow
    · obtain ⟨db, c, hdb, hone, hstore⟩ := (step_cases hs₂).closing
      rw [hstore]
      rcases ((hrun.trans hx).kept h₀).claim_waits hdb hy hop hq hwait with
        ⟨hsame, hno⟩ | ⟨t', hu, ht', hrow'⟩
      · refine .inl ⟨hsame, fun c' hc' => ?_⟩
        obtain ⟨-, rfl⟩ : sid₁ = sid₁ ∧ c' = c := by simpa [hone] using mem_closings.2 hc'
        exact hno
      · exact .inr ⟨q, t', hq, hu, ht', hrow'⟩

/-- The first job fails in its first attempt, and waits a second for the next. -/
theorem retry_waits_first :
    let run := State.after (firstClaim ++
      (finishing "w" 4 0 (.failed "no" false)).dropLast.dropLast)
    ∃ s' es', run.1.step (.defaults id) (.close ⟨.worker "w", 4⟩ .commit) = some (s', es') ∧
      ∃ (r : JobRow) (t : ℕ), s'.mysql.store.job? firstJob =
        some (r.finish .pending "no" 1000000 t) ∧ r.generation = 1 := by
  intro run
  let j : Job := (NewJob.row (newJob (.defaults id) firstInput firstJob none) 0).toJob "w"
  obtain ⟨s', es', hs⟩ : ∃ s' es',
      run.1.step (.defaults id) (.close ⟨.worker "w", 4⟩ .commit) = some (s',
        .closed ⟨.worker "w", 4⟩ (.committed (.finish j .pending "no" 1000000) .done) :: es') :=
    ⟨_, _, rfl⟩
  obtain ⟨-, -, -, -, r, t, hrow, hg, -⟩ :=
    retry_waits .fresh (Run.play _ _ _) rfl hs List.mem_cons_self
  exact ⟨s', _, hs, r, t, hrow, hg⟩

end ScaleQueue
