import Mathlib.Data.List.Basic
import Mathlib.Logic.Relation
import Mathlib.Data.Nat.Basic

/-!
# Transaction scripts over a store with locks

A transaction is a *script*: a tree of statements, each of which takes the
locks it needs, reads the store as the transaction sees it (the committed store
overlaid with its own writes) and goes on with a script that depends on what it
read. Locks are kept until the transaction ends.

* `Lockable`, `Writable`: a store, what each lock protects, and the writes;
* `Script.Obeys`: the statements of a script read and write only what is
  protected by the locks they take;
* `Exec`: a script run against one fixed store, as if nothing else happened;
* `Exec.transfer`: a run against `s` is a run against every store that agrees
  with `s` on the locks taken. This is what makes a transaction atomic: the run
  it made while others committed is a run against the store it commits to.

Two kinds of statement look at the store without a lock: a `scan` picks one of
the rows that are not locked by others, and a `read` sees the store as it was
at some moment. `Exec` remembers about them that the picked row has not changed
since, and what may have been seen, and found free, by a run against this store (`R`).
-/

namespace Locking

/-- A store `σ` whose parts are protected by the locks `κ`. -/
class Lockable (σ κ : Type) where
  /-- The two stores agree on what the lock protects. -/
  Agree : κ → σ → σ → Prop
  equiv : ∀ k, Equivalence (Agree k)

export Lockable (Agree)

/-- The writes `ω` on such a store. -/
class Writable (ω : Type) (σ κ : outParam Type) [Lockable σ κ] where
  apply : σ → ω → σ
  /-- The locks protecting what a write changes. -/
  covers : ω → List κ
  frame : ∀ {w : ω} {k : κ} (s : σ), k ∉ covers w → Agree k (apply s w) s
  congr : ∀ {w : ω} {s s' : σ}, (∀ k ∈ covers w, Agree k s s') →
    ∀ k ∈ covers w, Agree k (apply s w) (apply s' w)

export Writable (covers)

variable {σ κ ω γ ρ : Type}

section Stores

variable [Lockable σ κ] [Writable ω σ κ]

omit [Writable ω σ κ] in
theorem Agree.refl (k : κ) (s : σ) : Agree k s s := (Lockable.equiv k).refl s

omit [Writable ω σ κ] in
theorem Agree.symm {k : κ} {s s' : σ} (h : Agree k s s') : Agree k s' s :=
  (Lockable.equiv k).symm h

omit [Writable ω σ κ] in
theorem Agree.trans {k : κ} {s s' s'' : σ} (h : Agree k s s') (h' : Agree k s' s'') :
    Agree k s s'' := (Lockable.equiv k).trans h h'

/-- The store after the writes `ws`, in order. -/
def applyAll (s : σ) (ws : List ω) : σ := ws.foldl Writable.apply s

@[simp] theorem applyAll_nil (s : σ) : applyAll s ([] : List ω) = s := rfl

@[simp] theorem applyAll_cons (s : σ) (w : ω) (ws : List ω) :
    applyAll s (w :: ws) = applyAll (Writable.apply s w) ws := rfl

@[simp] theorem applyAll_append (s : σ) (ws ws' : List ω) :
    applyAll s (ws ++ ws') = applyAll (applyAll s ws) ws' := List.foldl_append

/-- Writes leave alone what is protected by other locks. -/
theorem applyAll_frame {ws : List ω} {k : κ} (s : σ) (h : ∀ w ∈ ws, k ∉ covers w) :
    Agree k (applyAll s ws) s := by
  induction ws generalizing s with
  | nil => exact Agree.refl k s
  | cons w ws ih =>
    refine Agree.trans (ih _ fun w' hw' => h w' (List.mem_cons_of_mem _ hw')) ?_
    exact Writable.frame s (h w List.mem_cons_self)

/-- Writes protected by the locks `H` keep stores that agree on `H` in agreement. -/
theorem applyAll_agree {ws : List ω} {H : List κ} {s s' : σ}
    (hw : ∀ w ∈ ws, ∀ k ∈ covers w, k ∈ H) (h : ∀ k ∈ H, Agree k s s') :
    ∀ k ∈ H, Agree k (applyAll s ws) (applyAll s' ws) := by
  induction ws generalizing s s' with
  | nil => exact h
  | cons w ws ih =>
    refine ih (fun w' hw' => hw w' (List.mem_cons_of_mem _ hw')) fun k hk => ?_
    by_cases hkw : k ∈ covers w
    · exact Writable.congr (fun k' hk' => h k' (hw w List.mem_cons_self k' hk')) k hkw
    · exact Agree.trans (Writable.frame s hkw)
        (Agree.trans (h k hk) (Agree.symm (Writable.frame s' hkw)))

end Stores

/-! ## Scripts -/

/-- What the server hands to a statement: the current time, as read when the
    statement starts, and a serial number that no statement had before. -/
structure Env where
  now : ℕ
  serial : ℕ

/-- A transaction, statement by statement. -/
inductive Script (σ κ ω γ ρ : Type) where
  /-- Take the locks, read under them and write. -/
  | stmt (keys : List κ) (write : Env → σ → List ω) (next : Env → σ → Script σ κ ω γ ρ)
  /-- Lock the row picked among those not locked by others, if there is one. -/
  | scan (pick : Env → σ → (κ → Bool) → Option κ)
      (next : Env → σ → Option κ → Script σ κ ω γ ρ)
  /-- Read without a lock. -/
  | read (next : Env → σ → Script σ κ ω γ ρ)
  /-- Wait for something outside of the store, which succeeds or not. -/
  | call (c : γ) (next : Bool → Script σ κ ω γ ρ)
  | commit (r : ρ)
  | abort (r : ρ)

namespace Script

variable [Lockable σ κ] [Writable ω σ κ]

/-- Every statement reads and writes only what its locks protect. -/
def Obeys : Script σ κ ω γ ρ → Prop
  | stmt keys write next =>
    (∀ e s s', (∀ k ∈ keys, Agree k s s') → write e s = write e s' ∧ next e s = next e s') ∧
    (∀ e s, ∀ w ∈ write e s, ∀ k ∈ covers w, k ∈ keys) ∧
    ∀ e s, (next e s).Obeys
  | scan _ next =>
    (∀ e s s' k, Agree k s s' → next e s (some k) = next e s' (some k)) ∧
    (∀ e s s', next e s none = next e s' none) ∧
    ∀ e s k, (next e s k).Obeys
  | read next => ∀ e s, (next e s).Obeys
  | call _ next => ∀ b, (next b).Obeys
  | commit _ => True
  | abort _ => True

/-- The script is at its end: only its outcome is left. -/
def Ended : Script σ κ ω γ ρ → Prop
  | commit _ => True
  | abort _ => True
  | _ => False

/-- The script waits for nothing outside of the store. -/
def Silent : Script σ κ ω γ ρ → Prop
  | stmt _ _ next => ∀ e s, (next e s).Silent
  | scan _ next => ∀ e s k, (next e s k).Silent
  | read next => ∀ e s, (next e s).Silent
  | call _ _ => False
  | commit _ => True
  | abort _ => True

/-- The script makes no other writes than those in `P`, and, beyond a call, those that
    the answer grants. -/
def Granted (grants : γ → Bool → ω → Prop) (P : ω → Prop) : Script σ κ ω γ ρ → Prop
  | stmt _ write next =>
    (∀ e s, ∀ w ∈ write e s, P w) ∧ ∀ e s, (next e s).Granted grants P
  | scan _ next => ∀ e s k, (next e s k).Granted grants P
  | read next => ∀ e s, (next e s).Granted grants P
  | call c next => ∀ b, (next b).Granted grants fun w => P w ∨ grants c b w
  | commit _ => True
  | abort _ => True

/-- The script writes only what `P` allows a statement to write, given what it is handed
    and the locks that the transaction holds before it, which are `H` at first. -/
def Writes (P : Env → List κ → ω → Prop) : List κ → Script σ κ ω γ ρ → Prop
  | H, stmt keys write next =>
    (∀ e s, ∀ w ∈ write e s, P e H w) ∧ ∀ e s, (next e s).Writes P (keys ++ H)
  | H, scan _ next => ∀ e s k, (next e s k).Writes P (k.toList ++ H)
  | H, read next => ∀ e s, (next e s).Writes P H
  | H, call _ next => ∀ b, (next b).Writes P H
  | _, commit _ => True
  | _, abort _ => True

omit [Lockable σ κ] [Writable ω σ κ] in
theorem Granted.mono {grants : γ → Bool → ω → Prop} {P Q : ω → Prop} {x : Script σ κ ω γ ρ}
    (h : x.Granted grants P) (hPQ : ∀ w, P w → Q w) : x.Granted grants Q := by
  induction x generalizing P Q with
  | stmt keys write next ih =>
    exact ⟨fun e s w hw => hPQ w (h.1 e s w hw), fun e s => ih e s (h.2 e s) hPQ⟩
  | scan pick next ih => exact fun e s k => ih e s k (h e s k) hPQ
  | read next ih => exact fun e s => ih e s (h e s) hPQ
  | call c next ih => exact fun b => ih b (h b) fun w => Or.imp_left (hPQ w)
  | commit => trivial
  | abort => trivial

end Script

/-! ## Runs against a fixed store -/

/-- How far a transaction has come: what it is about to do, what it wrote and
    locked, and a lower bound on what its next statement is handed. -/
structure Progress (σ κ ω γ ρ : Type) where
  since : Env
  rest : Script σ κ ω γ ρ
  writes : List ω
  held : List κ

section Exec

variable [Lockable σ κ] [Writable ω σ κ] (R : Env → σ → (κ → Bool) → σ → Prop)
  (F : Env → κ → σ → Prop)

/-- One statement, against the store `s`. A statement that looks without a lock sees a
    store, and finds locks free, that are in relation `R` with what it is handed and `s`,
    and `F` holds of what a statement is handed and of the locks it takes. -/
inductive Move (s : σ) : Progress σ κ ω γ ρ → Progress σ κ ω γ ρ → Prop
  | stmt {keys write next W H} {lo e : Env} {t : ℕ} :
      lo.now ≤ e.now → e.now ≤ t → lo.serial ≤ e.serial → (∀ k ∈ keys, F e k s) →
      Move s ⟨lo, .stmt keys write next, W, H⟩
        ⟨⟨t, e.serial + 1⟩, next e (applyAll s W), W ++ write e (applyAll s W), keys ++ H⟩
  | scan {pick next W H s₀ free o} {lo e : Env} {t : ℕ} :
      lo.now ≤ e.now → e.now ≤ t → lo.serial ≤ e.serial →
      pick e s₀ free = o → R e s₀ free s → (∀ k ∈ o, Agree k s₀ s) →
      Move s ⟨lo, .scan pick next, W, H⟩
        ⟨⟨t, e.serial + 1⟩, next e s₀ o, W, o.toList ++ H⟩
  | read {next W H v free} {lo e : Env} {t : ℕ} :
      lo.now ≤ e.now → e.now ≤ t → lo.serial ≤ e.serial → R e v free s →
      (∀ k ∈ H, Agree k v s) →
      Move s ⟨lo, .read next, W, H⟩ ⟨⟨t, e.serial + 1⟩, next e v, W, H⟩
  | call {c next W H b} {lo : Env} {t : ℕ} :
      lo.now ≤ t →
      Move s ⟨lo, .call c next, W, H⟩ ⟨⟨t, lo.serial⟩, next b, W, H⟩

/-- A run of statements against the store `s`. -/
abbrev Exec (s : σ) : Progress σ κ ω γ ρ → Progress σ κ ω γ ρ → Prop :=
  Relation.ReflTransGen (Move R F s)

variable {R F} {s s' : σ} {a b : Progress σ κ ω γ ρ}

theorem Move.held_subset (h : Move R F s a b) : ∀ k ∈ a.held, k ∈ b.held := by
  cases h <;> intro k hk <;> simp [hk]

theorem Move.obeys (h : Move R F s a b) (ha : a.rest.Obeys) : b.rest.Obeys := by
  cases h with
  | stmt => exact ha.2.2 _ _
  | scan => exact ha.2.2 _ _ _
  | read => exact ha _ _
  | call => exact ha _

theorem Exec.obeys (h : Exec R F s a b) (ha : a.rest.Obeys) : b.rest.Obeys := by
  induction h with
  | refl => exact ha
  | tail _ hm ih => exact hm.obeys ih

theorem Move.silent (h : Move R F s a b) (ha : a.rest.Silent) : b.rest.Silent := by
  cases h with
  | stmt => exact ha _ _
  | scan => exact ha _ _ _
  | read => exact ha _ _
  | call => exact absurd ha id

theorem Exec.silent (h : Exec R F s a b) (ha : a.rest.Silent) : b.rest.Silent := by
  induction h with
  | refl => exact ha
  | tail _ hm ih => exact hm.silent ih

theorem Move.writes {P : Env → List κ → ω → Prop} (h : Move R F s a b)
    (ha : a.rest.Writes P a.held) : b.rest.Writes P b.held := by
  cases h with
  | stmt => exact ha.2 _ _
  | scan => exact ha _ _ _
  | read => exact ha _ _
  | call => exact ha _

theorem Exec.writes {P : Env → List κ → ω → Prop} (h : Exec R F s a b)
    (ha : a.rest.Writes P a.held) : b.rest.Writes P b.held := by
  induction h with
  | refl => exact ha
  | tail _ hm ih => exact hm.writes ih

/-- What a transaction writes is protected by the locks it holds. -/
def Progress.Covered (a : Progress σ κ ω γ ρ) : Prop :=
  ∀ w ∈ a.writes, ∀ k ∈ covers w, k ∈ a.held

theorem Move.covered (h : Move R F s a b) (ha : a.rest.Obeys) (hc : a.Covered) : b.Covered := by
  intro w hw k hk
  cases h with
  | stmt =>
    rcases List.mem_append.1 hw with hw | hw
    · exact List.mem_append_right _ (hc w hw k hk)
    · exact List.mem_append_left _ (ha.2.1 _ _ w hw k hk)
  | scan => exact List.mem_append_right _ (hc w hw k hk)
  | read => exact hc w hw k hk
  | call => exact hc w hw k hk

theorem Exec.covered (h : Exec R F s a b) (ha : a.rest.Obeys) (hc : a.Covered) : b.Covered := by
  induction h with
  | refl => exact hc
  | tail hx hm ih => exact hm.covered (Exec.obeys hx ha) ih

theorem Move.since_le (h : Move R F s a b) :
    a.since.now ≤ b.since.now ∧ a.since.serial ≤ b.since.serial := by
  cases h with
  | stmt h₁ h₂ h₃ => exact ⟨Nat.le_trans h₁ h₂, Nat.le_succ_of_le h₃⟩
  | scan h₁ h₂ h₃ => exact ⟨Nat.le_trans h₁ h₂, Nat.le_succ_of_le h₃⟩
  | read h₁ h₂ h₃ => exact ⟨Nat.le_trans h₁ h₂, Nat.le_succ_of_le h₃⟩
  | call h₁ => exact ⟨h₁, le_rfl⟩

theorem Exec.since_le (h : Exec R F s a b) :
    a.since.now ≤ b.since.now ∧ a.since.serial ≤ b.since.serial := by
  induction h with
  | refl => exact ⟨le_rfl, le_rfl⟩
  | tail _ hm ih => exact ⟨Nat.le_trans ih.1 hm.since_le.1, Nat.le_trans ih.2 hm.since_le.2⟩

theorem Move.transfer (h : Move R F s a b) (ha : a.rest.Obeys) (hc : a.Covered)
    (hs : ∀ k ∈ b.held, Agree k s s') (hR : ∀ e v free, R e v free s → R e v free s')
    (hF : ∀ e k, Agree k s s' → F e k s → F e k s') : Move R F s' a b := by
  cases h with
  | @stmt keys write next W H lo e t h₁ h₂ h₃ h₄ =>
    -- The statement reads the same store under its locks, so it does the same.
    have hview : ∀ k ∈ keys ++ H, Agree k (applyAll s W) (applyAll s' W) :=
      applyAll_agree (fun w hw k hk => List.mem_append_right _ (hc w hw k hk)) hs
    have hsame := ha.1 e _ _ fun k hk => hview k (List.mem_append_left _ hk)
    rw [hsame.1, hsame.2]
    exact .stmt h₁ h₂ h₃ fun k hk => hF e k (hs k (List.mem_append_left _ hk)) (h₄ k hk)
  | scan h₁ h₂ h₃ h₄ h₅ h₆ =>
    refine .scan h₁ h₂ h₃ h₄ (hR _ _ _ h₅) fun k hk => Agree.trans (h₆ k hk) (hs k ?_)
    exact List.mem_append_left _ (Option.mem_toList.2 hk)
  | read h₁ h₂ h₃ h₄ h₅ =>
    exact .read h₁ h₂ h₃ (hR _ _ _ h₄) fun k hk => Agree.trans (h₅ k hk) (hs k hk)
  | call h₁ => exact .call h₁

/-- A run against `s` is a run against every store that agrees with `s` on the
    locks taken in it. -/
theorem Exec.transfer (h : Exec R F s a b) (ha : a.rest.Obeys) (hc : a.Covered)
    (hs : ∀ k ∈ b.held, Agree k s s') (hR : ∀ e v free, R e v free s → R e v free s')
    (hF : ∀ e k, Agree k s s' → F e k s → F e k s') : Exec R F s' a b := by
  induction h with
  | refl => exact .refl
  | tail hx hm ih =>
    exact .tail (ih fun k hk => hs k (hm.held_subset k hk))
      (hm.transfer (Exec.obeys hx ha) (Exec.covered hx ha hc) hs hR hF)

/-! ### Taking a run apart -/

variable {lo : Env} {W : List ω} {H : List κ}

/-- A run from a statement to an end starts with that statement. -/
theorem Exec.stmt_inv {keys write next}
    (h : Exec R F s ⟨lo, .stmt keys write next, W, H⟩ b) (hb : b.rest.Ended) :
    ∃ (e : Env) (t : ℕ), lo.now ≤ e.now ∧ e.now ≤ t ∧ lo.serial ≤ e.serial ∧
      (∀ k ∈ keys, F e k s) ∧
      Exec R F s ⟨⟨t, e.serial + 1⟩, next e (applyAll s W), W ++ write e (applyAll s W),
        keys ++ H⟩ b := by
  obtain rfl | ⟨_, hm, hx⟩ := h.cases_head
  · exact absurd hb id
  · cases hm with
    | stmt h₁ h₂ h₃ h₄ => exact ⟨_, _, h₁, h₂, h₃, h₄, hx⟩

/-- A run from a scan to an end starts with that scan. -/
theorem Exec.scan_inv {pick next}
    (h : Exec R F s ⟨lo, .scan pick next, W, H⟩ b) (hb : b.rest.Ended) :
    ∃ (e : Env) (t : ℕ) (s₀ : σ) (free : κ → Bool) (o : Option κ),
      lo.now ≤ e.now ∧ e.now ≤ t ∧ lo.serial ≤ e.serial ∧
      pick e s₀ free = o ∧ R e s₀ free s ∧ (∀ k ∈ o, Agree k s₀ s) ∧
      Exec R F s ⟨⟨t, e.serial + 1⟩, next e s₀ o, W, o.toList ++ H⟩ b := by
  obtain rfl | ⟨_, hm, hx⟩ := h.cases_head
  · exact absurd hb id
  · cases hm with
    | scan h₁ h₂ h₃ h₄ h₅ h₆ => exact ⟨_, _, _, _, _, h₁, h₂, h₃, h₄, h₅, h₆, hx⟩

/-- A run from an unlocked read to an end starts with that read. -/
theorem Exec.read_inv {next}
    (h : Exec R F s ⟨lo, .read next, W, H⟩ b) (hb : b.rest.Ended) :
    ∃ (e : Env) (t : ℕ) (v : σ) (free : κ → Bool),
      lo.now ≤ e.now ∧ e.now ≤ t ∧ lo.serial ≤ e.serial ∧
      R e v free s ∧ (∀ k ∈ H, Agree k v s) ∧
      Exec R F s ⟨⟨t, e.serial + 1⟩, next e v, W, H⟩ b := by
  obtain rfl | ⟨_, hm, hx⟩ := h.cases_head
  · exact absurd hb id
  · cases hm with
    | read h₁ h₂ h₃ h₄ h₅ => exact ⟨_, _, _, _, h₁, h₂, h₃, h₄, h₅, hx⟩

/-- A run from a call to an end starts with that call. -/
theorem Exec.call_inv {c next}
    (h : Exec R F s ⟨lo, .call c next, W, H⟩ b) (hb : b.rest.Ended) :
    ∃ (t : ℕ) (r : Bool), lo.now ≤ t ∧ Exec R F s ⟨⟨t, lo.serial⟩, next r, W, H⟩ b := by
  obtain rfl | ⟨_, hm, hx⟩ := h.cases_head
  · exact absurd hb id
  · cases hm with
    | call h₁ => exact ⟨_, _, h₁, hx⟩

/-- Nothing follows the end of a script. -/
theorem Exec.ended (h : Exec R F s a b) (ha : a.rest.Ended) : b = a := by
  obtain rfl | ⟨_, hm, _⟩ := h.cases_head
  · rfl
  · cases hm <;> exact absurd ha id

end Exec

end Locking
