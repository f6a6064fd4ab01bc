import ScaleQueue.Locking.Server

/-!
# One transaction after the other

What a server with many sessions has done by the time `t` is what it would have done
with one session at a time, in the order in which they were closed (`Serial`): each
transaction that was committed or rolled back has run by itself, from its first statement
to its last, against what those before it left. Only a statement that looks without a lock
may have seen another store: the one that its session `saw`, with the locks that it then
found free. This takes that the scripts lock what they read and write, and nothing else.

`Serialized` is kept by every step of the server (`Serialized.exec`, `Serialized.quiet`),
provided that a statement saw the store that was there.
-/

set_option linter.unusedSectionVars false

namespace Locking

variable {σ κ ω γ ρ ο ι : Type} [DecidableEq κ] [DecidableEq ι] [Lockable σ κ] [Writable ω σ κ]
  {prog : ο → Script σ κ ω γ ρ} {F : Env → κ → σ → Prop}
  {saw : ι → Env → σ → (κ → Bool) → Prop}

namespace Server

variable (prog F saw) in
/-- Transactions have been run one after the other from the store `s₀`, and closed by the
    time `t`. Here are the store that they left, and what became of them, in order. -/
inductive Serial (s₀ : σ) : ℕ → σ → List (ι × Closed ρ ο) → Prop
  | start (t : ℕ) : Serial s₀ t s₀ []
  | committed {t t' began : ℕ} {s : σ} {cs : List (ι × Closed ρ ο)} {i : ι} {op : ο} {r : ρ}
      {b : Progress σ κ ω γ ρ} (h : Serial s₀ t s cs) (ht : t ≤ t')
      (hrun : Exec (fun e v free _ => saw i e v free) F s (start prog op began) b)
      (hend : b.rest = .commit r) (hnow : b.since.now ≤ t') :
      Serial s₀ t' (applyAll s b.writes) (cs ++ [(i, .committed op r)])
  | aborted {t t' began : ℕ} {s : σ} {cs : List (ι × Closed ρ ο)} {i : ι} {op : ο} {r : ρ}
      {b : Progress σ κ ω γ ρ} (h : Serial s₀ t s cs) (ht : t ≤ t')
      (hrun : Exec (fun e v free _ => saw i e v free) F s (start prog op began) b)
      (hend : b.rest = .abort r) (hnow : b.since.now ≤ t') :
      Serial s₀ t' s (cs ++ [(i, .aborted op r)])
  /-- A transaction that failed has done nothing. -/
  | failed {t t' : ℕ} {s : σ} {cs : List (ι × Closed ρ ο)} {i : ι} {op : ο}
      (h : Serial s₀ t s cs) (ht : t ≤ t') : Serial s₀ t' s (cs ++ [(i, .failed op)])

variable {s₀ s : σ} {t t' : ℕ} {cs cs' : List (ι × Closed ρ ο)}

theorem Serial.wait (h : Serial prog F saw s₀ t s cs) (ht : t ≤ t') :
    Serial prog F saw s₀ t' s cs := by
  cases h with
  | start => exact .start t'
  | committed h hle hrun hend hnow =>
    exact .committed h (Nat.le_trans hle ht) hrun hend (Nat.le_trans hnow ht)
  | aborted h hle hrun hend hnow =>
    exact .aborted h (Nat.le_trans hle ht) hrun hend (Nat.le_trans hnow ht)
  | failed h hle => exact .failed h (Nat.le_trans hle ht)

variable {srv₀ srv srv' : Server σ κ ω γ ρ ο ι}

variable (prog F saw) in
/-- What the server has closed since `srv₀` was closed one after the other, and each open
    session is at a point of a run by itself after all that. -/
structure Serialized (srv₀ : Server σ κ ω γ ρ ο ι) (cs : List (ι × Closed ρ ο))
    (srv : Server σ κ ω γ ρ ο ι) : Prop where
  serial : Serial prog F saw srv₀.store srv.clock srv.store cs
  isolated : Isolated prog (fun i e v free _ => saw i e v free) F srv

theorem Serialized.idle (hlocks : ∀ k, srv₀.locks k = none)
    (hsessions : ∀ i, srv₀.sessions i = none) : Serialized prog F saw srv₀ [] srv₀ where
  serial := .start _
  isolated := ⟨by simp [hlocks], by simp [hsessions]⟩

/-- A session that is closed has run by itself after all that were closed before. -/
theorem Serialized.close {i : ι} {how : Closing} {c : Closed ρ ο}
    (h : Serialized prog F saw srv₀ cs srv) (hx : srv.close i how = some (srv', c)) :
    Serial prog F saw srv₀.store srv'.clock srv'.store (cs ++ [(i, c)]) := by
  have hstep : Step prog srv (some (i, c)) srv' := .close i how hx
  have hclock : srv.clock ≤ srv'.clock := hstep.clock_le.1
  cases c with
  | committed op r =>
    obtain ⟨x, b, -, -, hrun, hend, hstore, hnow, -⟩ := h.isolated.commit hx
    rw [hstore]
    exact .committed h.serial hclock hrun hend (Nat.le_trans hnow hclock)
  | aborted op r =>
    obtain ⟨x, b, -, -, hrun, hend, hnow⟩ := h.isolated.abort hx
    rw [hstep.store_eq (by simp)]
    exact .aborted h.serial hclock hrun hend (Nat.le_trans hnow hclock)
  | failed op =>
    rw [hstep.store_eq (by simp)]
    exact .failed h.serial hclock

/-- A statement that looks without a lock sees the store that is there. -/
theorem Serialized.exec (h : Serialized prog F saw srv₀ cs srv) {i : ι} {now : ℕ}
    (hx : srv.exec i now = some srv') (hsaw : saw i ⟨now, srv.serial⟩ srv.store (srv.free i))
    (hF : ∀ k, F ⟨now, srv.serial⟩ k srv.store) : Serialized prog F saw srv₀ cs srv' where
  serial := by
    obtain ⟨hstore, hclock, -⟩ := exec_cases hx
    rw [hstore, hclock]
    exact h.serial
  isolated := h.isolated.exec hx hsaw hF

/-- Without a statement, nothing is seen. -/
theorem Serialized.quiet (h : Serialized prog F saw srv₀ cs srv) (hobey : ∀ op, (prog op).Obeys)
    (hF : ∀ e k s s', Agree k s s' → F e k s → F e k s') (hs : Steps prog srv cs' srv')
    (hFs : ∀ cs' t, Steps prog srv cs' t → ∀ now k, F ⟨now, t.serial⟩ k t.store)
    (hserial : srv'.serial ≤ srv.serial) : Serialized prog F saw srv₀ (cs ++ cs') srv' := by
  induction hs with
  | refl => rwa [List.append_nil]
  | @tail t u cs₁ c hs hstep ih =>
    have hle := hstep.clock_le.2
    have hbefore := hs.serial_le
    have ht := ih (Nat.le_trans hle hserial)
    refine ⟨?_, ht.isolated.step hobey hF hstep (fun i now hx => ?_) (hFs _ _ hs)
      fun _ _ _ _ hv => hv⟩
    · rw [← List.append_assoc]
      cases c with
      | none =>
        rw [hstep.store_eq (by simp), Option.toList_none, List.append_nil]
        exact ht.serial.wait hstep.clock_le.1
      | some c =>
        cases hstep with
        | close i how hx => exact ht.close hx
    · have hnext := (exec_cases hx).2.2.1
      omega

end Server

end Locking
