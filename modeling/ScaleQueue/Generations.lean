import ScaleQueue.Life

/-!
# Generations and attempts

A job goes through generations, one for each requeue, and through attempts in
each, one for each claim. Its row counts both (`Life.tally`), and a generation
has at most `max_retries + 1` attempts (`Life.budget`). `base` is the number of
attempts that a job had used up before the run, in its first generation.
-/

namespace ScaleQueue

open Locking

/-- The job that a committed transaction has claimed. -/
def claimed? : Op × Answer → Option Job
  | (.claim _ _ _, .job j) => some j
  | _ => none

/-- The claims in a history, oldest first. -/
def claims (h : List (Op × Answer)) : List Job := h.filterMap claimed?

/-- The number of claims of a generation. -/
def claimsIn (g : ℕ) (h : List (Op × Answer)) : ℕ := (claims h).countP (·.generation = g)

/-- A requeue that was committed. -/
def isRequeue : Op × Answer → Bool
  | (.requeueJob _, .done) => true
  | _ => false

/-- The number of requeues in a history. -/
def requeues (h : List (Op × Answer)) : ℕ := h.countP isRequeue

/-- The transaction decides on the status of the job. -/
def decides : Op × Answer → Bool
  | (.renew _, _) => false
  | (.dispatch, _) => false
  | _ => true

@[simp] theorem claims_append (h h' : List (Op × Answer)) :
    claims (h ++ h') = claims h ++ claims h' := List.filterMap_append

theorem claims_cons (x : Op × Answer) (h : List (Op × Answer)) :
    claims (x :: h) = (claimed? x).toList ++ claims h := by
  cases hx : claimed? x <;> simp [claims, hx]

@[simp] theorem claimsIn_append (g : ℕ) (h h' : List (Op × Answer)) :
    claimsIn g (h ++ h') = claimsIn g h + claimsIn g h' := by
  simp [claimsIn]

@[simp] theorem requeues_append (h h' : List (Op × Answer)) :
    requeues (h ++ h') = requeues h + requeues h' := List.countP_append

@[simp] theorem claimsIn_nil (g : ℕ) : claimsIn g [] = 0 := rfl
@[simp] theorem requeues_nil : requeues [] = 0 := rfl

@[simp] theorem claimsIn_claim (g : ℕ) (id : JobId) (g' : ℕ) (w : WorkerId) (j : Job) :
    claimsIn g [(.claim id g' w, .job j)] = if j.generation = g then 1 else 0 := by
  by_cases h : j.generation = g <;> simp [claimsIn, claims, claimed?, h]

/-- A transaction that claims nothing leaves the number of claims. -/
theorem claimsIn_other {g : ℕ} {x : Op × Answer} (h : claimed? x = none) :
    claimsIn g [x] = 0 := by
  simp [claimsIn, claims, h]

@[simp] theorem requeues_requeue (id : JobId) : requeues [(.requeueJob id, .done)] = 1 := rfl

theorem requeues_other {x : Op × Answer} (h : isRequeue x = false) : requeues [x] = 0 := by
  simp [requeues, h]

/-- What a row says about the history of its job. -/
structure Tally (base : ℕ) (h : List (Op × Answer)) (r : JobRow) : Prop where
  generation : r.generation = 1 + requeues h
  attempts : r.attemptCount = claimsIn r.generation h + if r.generation = 1 then base else 0
  future : ∀ g, r.generation < g → claimsIn g h = 0
  budget : ∀ g, claimsIn g h + (if g = 1 then base else 0) ≤
    max (r.maxRetries + 1) (if g = 1 then base else 0)

/-- The tally of a job, or nothing if there is no job yet. -/
def Tallied (base : ℕ) (h : List (Op × Answer)) : Option JobRow → Prop
  | some r => Tally base h r
  | none => base = 0 ∧ claims h = [] ∧ requeues h = 0

variable {lease : ℕ} {id : JobId} {lo hi : Env} {op : Op} {a : Answer} {v v' : JobView} {base : ℕ}
  {h : List (Op × Answer)}

/-- A change that is neither a claim nor a requeue keeps the tally. -/
theorem Tally.keep {x : Op × Answer} {r r' : JobRow} (ht : Tally base h r)
    (hc : claimed? x = none) (hq : isRequeue x = false) (hg : r'.generation = r.generation)
    (ha : r'.attemptCount = r.attemptCount) (hm : r'.maxRetries = r.maxRetries) :
    Tally base (h ++ [x]) r' := by
  have hclaims (g : ℕ) : claimsIn g (h ++ [x]) = claimsIn g h := by
    rw [claimsIn_append, claimsIn_other hc, Nat.add_zero]
  constructor
  · rw [hg, requeues_append, requeues_other hq, ht.generation, Nat.add_zero]
  · rw [hg, ha, hclaims, ht.attempts]
  · exact fun g hlt => (hclaims g).trans (ht.future g (hg ▸ hlt))
  · intro g
    rw [hclaims, hm]
    exact ht.budget g

/-- Every change keeps the tally. -/
theorem Change.tallied (hc : Change lease id lo hi op a v v') (ht : Tallied base h v.row) :
    Tallied base (h ++ [(op, a)]) v'.row := by
  cases hc with
  | @claimed g owner r _ _ _ _ _ _ _ hr hbudget =>
    obtain ⟨hgen, hatt, hfut, hbud⟩ := ht
    -- The claim counts in the generation of the row, and in no other.
    have hcount (g' : ℕ) : claimsIn g' (h ++ [(.claim id g owner, .job (r.toJob owner))]) =
        claimsIn g' h + if r.generation = g' then 1 else 0 := by
      rw [claimsIn_append, claimsIn_claim]
      rfl
    refine ⟨?_, ?_, fun g' hlt => ?_, fun g' => ?_⟩
    · rw [requeues_append]
      exact hgen
    · show r.attemptCount + 1 = _
      rw [hcount, hatt, show (r.claim owner lease _).generation = r.generation from rfl, if_pos rfl]
      omega
    · have hlt : r.generation < g' := hlt
      rw [hcount, hfut g' hlt, if_neg (Nat.ne_of_lt hlt)]
    · show _ ≤ max (r.maxRetries + 1) _
      rw [hcount]
      by_cases hg : r.generation = g'
      · subst hg
        rw [if_pos rfl]
        have : r.attemptCount < r.maxRetries + 1 := hbudget
        omega
      · rw [if_neg hg]
        exact hbud g'
  | @requeued r =>
    obtain ⟨hgen, hatt, hfut, hbud⟩ := ht
    have hcount (g' : ℕ) : claimsIn g' (h ++ [(.requeueJob id, .done)]) = claimsIn g' h := by
      rw [claimsIn_append, claimsIn_other rfl, Nat.add_zero]
    refine ⟨?_, ?_, fun g' hlt => ?_, fun g' => ?_⟩
    · rw [requeues_append, requeues_requeue]
      exact congrArg (· + 1) hgen
    · show 0 = claimsIn (r.generation + 1) _ + if r.generation + 1 = 1 then base else 0
      rw [hcount, hfut _ (Nat.lt_succ_self _), if_neg (by omega)]
    · rw [hcount, hfut g' (Nat.lt_of_succ_lt hlt)]
    · rw [hcount]
      exact hbud g'
  | created =>
    obtain ⟨rfl, hcl, hrq⟩ := ht
    have hcount (g : ℕ) : claimsIn g h = 0 := by simp [claimsIn, hcl]
    refine ⟨?_, ?_, fun g _ => ?_, fun g => ?_⟩
    · rw [requeues_append, hrq]
      rfl
    · rw [claimsIn_append, hcount, claimsIn_other rfl]
      simp [NewJob.row]
    · rw [claimsIn_append, hcount, claimsIn_other rfl]
    · rw [claimsIn_append, hcount, claimsIn_other rfl]
      omega
  | @published o row =>
    cases row with
    | none =>
      obtain ⟨hb, hcl, hrq⟩ := ht
      exact ⟨hb, by simpa [claims, claimed?] using hcl, by simpa [requeues, isRequeue] using hrq⟩
    | some r => exact ht.keep rfl rfl rfl rfl rfl
  | exhausted => exact ht.keep rfl rfl rfl rfl rfl
  | renewed => exact ht.keep rfl rfl rfl rfl rfl
  | finished => exact ht.keep rfl rfl rfl rfl rfl
  | retried => exact ht.keep rfl rfl rfl rfl rfl
  | dropped => exact ht.keep rfl rfl rfl rfl rfl

/-! ## Lives -/

/-- Where a life starts: without the job, or with a job in its first generation
    that has used up `base` attempts. -/
structure Origin (base : ℕ) (v₀ : JobView) : Prop where
  sound : v₀.Sound
  absent : v₀.row = none → base = 0
  generation : ∀ r ∈ v₀.row, r.generation = 1
  attempts : ∀ r ∈ v₀.row, r.attemptCount = base

theorem Origin.none {v₀ : JobView} (hs : v₀.Sound) (h : v₀.row = none) : Origin 0 v₀ where
  sound := hs
  absent _ := rfl
  generation := by simp [h]
  attempts := by simp [h]

section Lives

variable {v₀ : JobView} {t₀ t : ℕ}

theorem Life.sound (hl : Life lease id v₀ t₀ h v t) (h₀ : v₀.Sound) : v.Sound := by
  induction hl with
  | start => exact h₀
  | wait _ _ ih => exact ih
  | change _ hc _ ih => exact hc.sound ih

theorem Life.tally (hl : Life lease id v₀ t₀ h v t) (h₀ : Origin base v₀) :
    Tallied base h v.row := by
  induction hl with
  | start =>
    cases hrow : v₀.row with
    | none => exact ⟨h₀.absent hrow, rfl, rfl⟩
    | some r =>
      have hgen := h₀.generation r hrow
      refine ⟨hgen, ?_, fun g _ => rfl, fun g => ?_⟩
      · rw [if_pos hgen, h₀.attempts r hrow, claimsIn_nil, Nat.zero_add]
      · rw [claimsIn_nil]
        omega
  | wait _ _ ih => exact ih
  | change _ hc _ ih => exact hc.tallied ih

theorem Tally.attempts_eq {r : JobRow} (ht : Tally 0 h r) :
    r.attemptCount = claimsIn r.generation h := by
  simpa using ht.attempts

theorem Tally.claims_le {r : JobRow} (ht : Tally 0 h r) (g : ℕ) :
    claimsIn g h ≤ r.maxRetries + 1 := by
  simpa using ht.budget g

theorem Tally.attempts_le {r : JobRow} (ht : Tally 0 h r) :
    r.attemptCount ≤ r.maxRetries + 1 :=
  ht.attempts_eq ▸ ht.claims_le r.generation

/-- The tally of a job that was created in the run. -/
theorem Run.tally {cfg : Config} {s₀ s : State} {es : List Event} (hrun : Run cfg s₀ es s)
    (h₀ : Initial s₀) (hnew : s₀.mysql.store.job? id = none) {r : JobRow}
    (hr : s.mysql.store.job? id = some r) : Tally 0 (history id (closings es)) r := by
  have ht := (hrun.life h₀ id).tally (.none (h₀.sound id) hnew)
  rwa [Tables.view_row, hr] at ht

end Lives

end ScaleQueue
