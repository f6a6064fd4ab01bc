import Mathlib.Data.List.Basic

/-!
# Machines and simulations

A machine takes steps, and in each of them something may be seen (`Machine`). A run is a
sequence of steps, with all that was seen in them (`Machine.Run`).

A simulation relates the states of one machine to those of another: whatever the one does
in a step, the other can do in a run in which the same is seen (`Simulates`). Then what is
seen in a run of the one can be seen in a run of the other, and the runs end in related
states (`Simulates.run`).

What held at some moment of a run, of the state and of what was seen from then on, goes on
having held (`Machine.Passed`).
-/

namespace Simulation

/-- A machine with the states `σ`, in whose steps `ℓ`s are seen. -/
structure Machine (σ ℓ : Type) where
  Start : σ → Prop
  /-- From a state, with what is seen, to a state. -/
  Step : σ → List ℓ → σ → Prop

variable {σ τ ℓ : Type}

/-- The runs from `s₀`, with what is seen in them. -/
inductive Machine.Run (m : Machine σ ℓ) (s₀ : σ) : List ℓ → σ → Prop
  | refl : m.Run s₀ [] s₀
  | step {tr o : List ℓ} {s s' : σ} : m.Run s₀ tr s → m.Step s o s' → m.Run s₀ (tr ++ o) s'

namespace Machine

variable {m : Machine σ ℓ} {s s' s'' : σ} {tr tr' o : List ℓ}

theorem Run.one (h : m.Step s o s') : m.Run s o s' := .step .refl h

theorem Run.trans (h : m.Run s tr s') (h' : m.Run s' tr' s'') : m.Run s (tr ++ tr') s'' := by
  induction h' with
  | refl => rwa [List.append_nil]
  | step _ hs ih =>
    rw [← List.append_assoc]
    exact ih.step hs

/-- What holds at first, and is kept by every step, holds after every run. -/
theorem Run.keeps {I : List ℓ → σ → Prop} (h : m.Run s tr s') (h₀ : I [] s)
    (hstep : ∀ tr s o s', I tr s → m.Step s o s' → I (tr ++ o) s') : I tr s' := by
  induction h with
  | refl => exact h₀
  | step _ hs ih => exact hstep _ _ _ _ ih hs

variable (m) in
/-- In a run, there was a moment at which `P` held, of what was seen from then on as well. -/
def Passed (s₀ : σ) (tr : List ℓ) (s : σ) (P : List ℓ → σ → Prop) : Prop :=
  ∃ tr₁ tr₂ u, tr = tr₁ ++ tr₂ ∧ m.Run s₀ tr₁ u ∧ m.Run u tr₂ s ∧ P tr₂ u

section Passed

variable {s₀ : σ} {P Q : List ℓ → σ → Prop}

theorem Passed.now (h : m.Run s₀ tr s) (hP : P [] s) : m.Passed s₀ tr s P :=
  ⟨tr, [], s, (List.append_nil _).symm, h, .refl, hP⟩

theorem Passed.later (h : m.Passed s₀ tr s P) (hs : m.Step s o s')
    (hP : ∀ tr u, m.Run u tr s → P tr u → Q (tr ++ o) u) : m.Passed s₀ (tr ++ o) s' Q := by
  obtain ⟨tr₁, tr₂, u, rfl, h₁, h₂, hu⟩ := h
  exact ⟨tr₁, tr₂ ++ o, u, List.append_assoc _ _ _, h₁, h₂.step hs, hP _ _ h₂ hu⟩

/-- A later moment. -/
theorem Passed.next {P : σ → Prop} (h : m.Passed s₀ tr s fun _ u => P u) (hs : m.Step s o s')
    (hQ : Q o s) : m.Passed s₀ (tr ++ o) s' fun tr u => P u ∧ m.Passed u tr s' Q :=
  h.later hs fun tr _ hrun hP => ⟨hP, tr, o, s, rfl, hrun, .one hs, hQ⟩

end Passed

end Machine

/-- What the machine `c` does from a state, the machine `a` can do from a related one. -/
structure Simulates (a : Machine τ ℓ) (c : Machine σ ℓ) (R : σ → τ → Prop) : Prop where
  start : ∀ s, c.Start s → ∃ t, a.Start t ∧ R s t
  step : ∀ s t o s', R s t → c.Step s o s' → ∃ t', a.Run t o t' ∧ R s' t'

variable {a : Machine τ ℓ} {c : Machine σ ℓ} {R : σ → τ → Prop} {s s' : σ} {t : τ} {tr : List ℓ}

theorem Simulates.run (h : Simulates a c R) (hR : R s t) (hrun : c.Run s tr s') :
    ∃ t', a.Run t tr t' ∧ R s' t' := by
  induction hrun with
  | refl => exact ⟨t, .refl, hR⟩
  | step _ hs ih =>
    obtain ⟨t₁, hrun₁, hR₁⟩ := ih
    obtain ⟨t₂, hrun₂, hR₂⟩ := h.step _ _ _ _ hR₁ hs
    exact ⟨t₂, hrun₁.trans hrun₂, hR₂⟩

end Simulation
