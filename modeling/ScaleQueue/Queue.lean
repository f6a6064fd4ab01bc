import Mathlib.Data.Prod.Lex
import ScaleQueue.Simulation

/-!
# A queue of leased jobs

What a durable job queue is for, with nothing about how it is done. A job waits until it is
due, and is then leased to an owner for a while; who holds its lease says how the attempt
ended. A lease that runs out is given to somebody else, until the budget of attempts is
used up. A dead job can be replayed, in a new generation. Everything happens at one moment
(`Deed.Takes`).

A job only ever moves forward: all it goes through, an extended lease apart, makes it newer
than it was (`Ticket.version`), so it never comes back to where it has been (`run_newer`).
-/

open Simulation

namespace Queue

/-- How long a lease is, and how long to wait after an attempt. -/
structure Policy where
  lease : ℕ
  /-- The waits that are allowed after an attempt. -/
  Backoff : ℕ → ℕ → Prop

variable {ι ω : Type}

/-- What an owner holds that was given an attempt. -/
structure Grant (ω : Type) where
  owner : ω
  generation : ℕ
  attempt : ℕ

/-- How a lease may end. -/
inductive Verdict
  | completed
  | retried
  | dead

/-- Where a ticket is in its life. -/
inductive Stage (ω : Type)
  | waiting (due : ℕ)
  | leased (owner : ω) (expiry : ℕ)
  | completed
  | dead

/-- A job in the queue. -/
structure Ticket (ω : Type) where
  budget : ℕ
  generation : ℕ
  attempts : ℕ
  stage : Stage ω

/-- What happens to a job. -/
inductive Deed (ω : Type)
  | submit (budget : ℕ)
  | lease (g : Grant ω)
  | extend (owner : ω) (generation : ℕ)
  | finish (g : Grant ω) (v : Verdict)
  /-- The lease of the last attempt ran out. -/
  | exhaust
  | replay

/-- The job can be leased at `t`. -/
def Stage.Open (t : ℕ) : Stage ω → Prop
  | .waiting due => due ≤ t
  | .leased _ expiry => expiry ≤ t
  | _ => False

/-- What a deed does to a job at `t`. -/
inductive Deed.Takes (p : Policy) (t : ℕ) : Deed ω → Option (Ticket ω) → Option (Ticket ω) → Prop
  | submit {n} (hn : 1 ≤ n) : Takes p t (.submit n) none (some ⟨n, 1, 0, .waiting t⟩)
  | lease {x : Ticket ω} {w} (hopen : x.stage.Open t) (hbudget : x.attempts < x.budget) :
      Takes p t (.lease ⟨w, x.generation, x.attempts + 1⟩) (some x)
        (some { x with attempts := x.attempts + 1, stage := .leased w (t + p.lease) })
  | extend {x : Ticket ω} {w u} (hx : x.stage = .leased w u) (ht : t < u) :
      Takes p t (.extend w x.generation) (some x)
        (some { x with stage := .leased w (t + p.lease) })
  | completed {x : Ticket ω} {w u} (hx : x.stage = .leased w u) (ht : t < u) :
      Takes p t (.finish ⟨w, x.generation, x.attempts⟩ .completed) (some x)
        (some { x with stage := .completed })
  | retried {x : Ticket ω} {w u d} (hx : x.stage = .leased w u) (ht : t < u)
      (hbudget : x.attempts < x.budget) (hd : p.Backoff x.attempts d) :
      Takes p t (.finish ⟨w, x.generation, x.attempts⟩ .retried) (some x)
        (some { x with stage := .waiting (t + d) })
  | dead {x : Ticket ω} {w u} (hx : x.stage = .leased w u) (ht : t < u) :
      Takes p t (.finish ⟨w, x.generation, x.attempts⟩ .dead) (some x)
        (some { x with stage := .dead })
  | exhaust {x : Ticket ω} {w u} (hx : x.stage = .leased w u) (ht : u ≤ t)
      (hbudget : x.attempts = x.budget) :
      Takes p t .exhaust (some x) (some { x with stage := .dead })
  | replay {x : Ticket ω} (hx : x.stage = .dead) :
      Takes p t .replay (some x) (some ⟨x.budget, x.generation + 1, 0, .waiting t⟩)

/-! ## Tickets -/

/-- A lease is the newest in its attempt, and all else comes after it. -/
def Stage.rank : Stage ω → ℕ
  | .leased _ _ => 0
  | _ => 1

/-- How far a job has come. -/
def Ticket.version (x : Ticket ω) : ℕ ×ₗ ℕ := toLex (x.generation, 2 * x.attempts + x.stage.rank)

/-- The deed leaves a job as new as it was. -/
def Deed.extends : Deed ω → Prop
  | .extend _ _ => True
  | _ => False

variable {p : Policy} {t : ℕ} {d : Deed ω} {x y : Ticket ω}

/-- What can be leased can be leased later. -/
theorem Stage.Open.wait {s : Stage ω} {t' : ℕ} (h : s.Open t) (ht : t ≤ t') : s.Open t' := by
  cases s with
  | waiting => exact Nat.le_trans h ht
  | leased => exact Nat.le_trans h ht
  | completed => exact h
  | dead => exact h

theorem Ticket.version_lt_of_generation (h : x.generation < y.generation) :
    x.version < y.version :=
  Prod.Lex.toLex_lt_toLex.2 (.inl h)

theorem Ticket.version_lt_of_rank (hg : x.generation = y.generation)
    (h : 2 * x.attempts + x.stage.rank < 2 * y.attempts + y.stage.rank) :
    x.version < y.version :=
  Prod.Lex.toLex_lt_toLex.2 (.inr ⟨hg, h⟩)

theorem Stage.rank_le (s : Stage ω) : s.rank ≤ 1 := by
  cases s <;> simp [Stage.rank]

/-- Every deed makes a job newer, an extended lease apart. -/
theorem Deed.Takes.newer (h : d.Takes p t (some x) (some y)) :
    d.extends ∧ x.version = y.version ∨ ¬ d.extends ∧ x.version < y.version := by
  cases h with
  | lease =>
    have hrank := x.stage.rank_le
    refine .inr ⟨id, Ticket.version_lt_of_rank rfl ?_⟩
    show 2 * x.attempts + x.stage.rank < 2 * (x.attempts + 1) + 0
    omega
  | extend hx => exact .inl ⟨trivial, by simp [Ticket.version, hx, Stage.rank]⟩
  | completed hx => exact .inr ⟨id, Ticket.version_lt_of_rank rfl (by simp [hx, Stage.rank])⟩
  | retried hx => exact .inr ⟨id, Ticket.version_lt_of_rank rfl (by simp [hx, Stage.rank])⟩
  | dead hx => exact .inr ⟨id, Ticket.version_lt_of_rank rfl (by simp [hx, Stage.rank])⟩
  | exhaust hx => exact .inr ⟨id, Ticket.version_lt_of_rank rfl (by simp [hx, Stage.rank])⟩
  | replay => exact .inr ⟨id, Ticket.version_lt_of_generation (Nat.lt_succ_self _)⟩

theorem Deed.Takes.present {o : Option (Ticket ω)} (h : d.Takes p t (some x) o) :
    ∃ y, o = some y := by
  cases h <;> exact ⟨_, rfl⟩

/-! ## The queue -/

end Queue

/-- The jobs that were submitted, and the time. -/
structure Queue (ι ω : Type) where
  tickets : ι → Option (Queue.Ticket ω)
  clock : ℕ

namespace Queue

variable {ι ω : Type} [DecidableEq ι]

/-- What can happen to a queue. A deed may have looked at the clock a while ago. -/
inductive Does (p : Policy) (q : Queue ι ω) : List (ι × Deed ω) → Queue ι ω → Prop
  | wait {t : ℕ} (ht : q.clock ≤ t) : Does p q [] ⟨q.tickets, t⟩
  | deed {i : ι} {d : Deed ω} {o : Option (Ticket ω)} {t : ℕ} (ht : t ≤ q.clock)
      (h : d.Takes p t (q.tickets i) o) :
      Does p q [(i, d)] ⟨Function.update q.tickets i o, q.clock⟩

/-- The queue as a machine, which starts without a job. -/
def machine (p : Policy) : Machine (Queue ι ω) (ι × Deed ω) where
  Start q := ∀ i, q.tickets i = none
  Step := Does p

variable {p : Policy} {q q' : Queue ι ω} {tr : List (ι × Deed ω)}

/-- Jobs stay in the queue and become newer, or nothing happened to them but that their
    lease was extended. -/
theorem run_newer (h : (machine p).Run q tr q') {i : ι} {x : Ticket ω}
    (hx : q.tickets i = some x) : ∃ y, q'.tickets i = some y ∧ (x.version < y.version ∨
      x.version = y.version ∧ ∀ d, (i, d) ∈ tr → d.extends) := by
  refine h.keeps (I := fun tr q' => ∃ y, q'.tickets i = some y ∧ (x.version < y.version ∨
    x.version = y.version ∧ ∀ d, (i, d) ∈ tr → d.extends)) ⟨x, hx, .inr ⟨rfl, nofun⟩⟩ ?_
  rintro tr q₁ o q₂ ⟨y, hy, hnewer⟩ hdoes
  cases hdoes with
  | wait =>
    rw [List.append_nil]
    exact ⟨y, hy, hnewer⟩
  | @deed j d o t ht htakes =>
    by_cases hij : i = j
    · subst hij
      rw [hy] at htakes
      obtain ⟨z, rfl⟩ := htakes.present
      refine ⟨z, Function.update_self _ _ _, ?_⟩
      rcases htakes.newer with ⟨hext, heq⟩ | ⟨-, hlt⟩
      · rw [← heq]
        refine hnewer.imp_right fun ⟨hsame, hall⟩ => ⟨hsame, fun d' hd' => ?_⟩
        rcases List.mem_append.1 hd' with hd' | hd'
        · exact hall d' hd'
        · obtain rfl : d' = d := by simpa using hd'
          exact hext
      · exact .inl (hnewer.elim (·.trans hlt) fun h => h.1 ▸ hlt)
    · refine ⟨y, (Function.update_of_ne hij _ _).trans hy, hnewer.imp_right fun ⟨hsame, hall⟩ => ?_⟩
      refine ⟨hsame, fun d' hd' => ?_⟩
      rcases List.mem_append.1 hd' with hd' | hd'
      · exact hall d' hd'
      · exact absurd (Prod.mk.inj (List.mem_singleton.1 hd')).1 hij

end Queue
