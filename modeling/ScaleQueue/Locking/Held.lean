import ScaleQueue.Locking.Server

/-!
# What sessions hold

Properties of the locks that the sessions of a server hold, in any run in which a session
begins with no lock (`Server.Safe`): a transaction of a single statement holds none before it
has run, and is at its end once it holds one (`Server.Brief`); and a transaction whose
script takes each lock only with the lock that leads it never holds one without the other
(`Server.Heedful`).
-/

set_option linter.unusedSectionVars false

namespace Locking

namespace Script

variable {σ κ ω γ ρ : Type}

/-- The script has a single statement. -/
def Single : Script σ κ ω γ ρ → Prop
  | stmt _ _ next => ∀ e s, (next e s).Ended
  | scan _ next => ∀ e s k, (next e s k).Ended
  | read next => ∀ e s, (next e s).Ended
  | _ => False

/-- The script, whose transaction holds the locks `H` at first, takes a lock only with the
    lock that leads it, or holding it. -/
def Heeds (lead : κ → Option κ) : List κ → Script σ κ ω γ ρ → Prop
  | H, stmt keys _ next =>
    (∀ k ∈ keys, ∀ l ∈ lead k, l ∈ keys ++ H) ∧ ∀ e s, (next e s).Heeds lead (keys ++ H)
  | H, scan _ next => ∀ e s (k : Option κ),
    (∀ k' ∈ k, ∀ l ∈ lead k', l ∈ H) ∧ (next e s k).Heeds lead (k.toList ++ H)
  | H, read next => ∀ e s, (next e s).Heeds lead H
  | H, call _ next => ∀ b, (next b).Heeds lead H
  | _, commit _ => True
  | _, abort _ => True

end Script

namespace Server

variable {σ κ ω γ ρ ο ι : Type} [DecidableEq κ] [DecidableEq ι] [Lockable σ κ]
  [Writable ω σ κ] {srv srv' : Server σ κ ω γ ρ ο ι} {i : ι} {prog : ο → Script σ κ ω γ ρ}

/-- The steps of the server keep `I`, if a session holds no lock when it begins. -/
structure Safe (prog : ο → Script σ κ ω γ ρ) (I : Server σ κ ω γ ρ ο ι → Prop) : Prop where
  advance : ∀ srv d, I srv → I (srv.advance d)
  begin : ∀ srv i op, I srv → (∀ k, srv.locks k ≠ some i) → I (srv.begin i prog op)
  leave : ∀ srv i, I srv → I (srv.leave i)
  exec : ∀ srv i now srv', I srv → srv.exec i now = some srv' → I srv'
  answer : ∀ srv i b srv', I srv → srv.answer i b = some srv' → I srv'
  drop : ∀ srv i s, I srv → I (srv.drop i s)

/-- A session that was left stays the same transaction. -/
theorem leave_session {j : ι} {x' : Session σ κ ω γ ρ ο} (h : (srv.leave i).sessions j = some x') :
    ∃ x, srv.sessions j = some x ∧ x'.op = x.op ∧ x'.rest = x.rest := by
  by_cases hj : j = i
  · subst hj
    obtain ⟨x, hx, rfl⟩ := Option.map_eq_some_iff.1 (by simpa [Server.leave] using h)
    exact ⟨x, hx, rfl, rfl⟩
  · exact ⟨x', by simpa [Server.leave, hj] using h, rfl, rfl⟩

/-- What is left of the sessions when one is closed. -/
theorem drop_session {j : ι} {s : σ} {x : Session σ κ ω γ ρ ο}
    (h : (srv.drop i s).sessions j = some x) : j ≠ i ∧ srv.sessions j = some x := by
  by_cases hj : j = i
  · subst hj
    simp [Server.drop] at h
  · exact ⟨hj, by simpa [Server.drop, hj] using h⟩

/-- The others keep their locks when a session is closed. -/
theorem drop_locks {j : ι} (hj : j ≠ i) (s : σ) (k : κ) :
    (srv.drop i s).locks k = some j ↔ srv.locks k = some j := by
  simp only [Server.drop, release]
  split
  · rename_i hk
    rw [hk]
    exact ⟨fun h => absurd h (by simp), fun h => absurd (Option.some.inj h).symm hj⟩
  · rfl

/-! ## Brief transactions -/

/-- The sessions for operations of the kind have yet to run their single statement, and hold
    no lock, or are at their end. -/
def Brief (P : ο → Prop) (srv : Server σ κ ω γ ρ ο ι) : Prop :=
  ∀ i x, srv.sessions i = some x → P x.op →
    x.rest.Single ∧ (∀ k, srv.locks k ≠ some i) ∨ x.rest.Ended

variable {P : ο → Prop}

theorem Brief.exec {now : ℕ} (h : Brief P srv) (hx : srv.exec i now = some srv') :
    Brief P srv' := by
  obtain ⟨x, keys, y, hx₁, -, -, -, rfl, hex⟩ := exec_inv hx
  intro j z hz hP
  by_cases hj : j = i
  · subst hj
    obtain rfl : y = z := Option.some.inj (by simpa [goOn] using hz)
    -- It was its only statement that has run.
    refine .inr ?_
    rcases h j x hx₁ (hex.same.1 ▸ hP) with ⟨hsingle, -⟩ | hend
    · cases hex with
      | stmt hrest => rw [hrest] at hsingle; exact hsingle _ _
      | scan hrest => rw [hrest] at hsingle; exact hsingle _ _ _
      | read hrest => rw [hrest] at hsingle; exact hsingle _ _
    · cases hex with
      | stmt hrest => rw [hrest] at hend; exact absurd hend id
      | scan hrest => rw [hrest] at hend; exact absurd hend id
      | read hrest => rw [hrest] at hend; exact absurd hend id
  · refine (h j z (by simpa [goOn, hj] using hz) hP).imp_left fun hs => ⟨hs.1, fun k hk => ?_⟩
    exact hs.2 k ((goOn_locks hex.free hj k).1 hk)

theorem Brief.answer {b : Bool} (h : Brief P srv) (hx : srv.answer i b = some srv') :
    Brief P srv' := by
  obtain ⟨x, c, next, hx₁, hrest, rfl⟩ := answer_cases hx
  intro j z hz hP
  by_cases hj : j = i
  · subst hj
    obtain rfl : _ = z := Option.some.inj (by simpa using hz)
    rcases h j x hx₁ hP with ⟨hsingle, -⟩ | hend
    · rw [hrest] at hsingle
      exact absurd hsingle id
    · rw [hrest] at hend
      exact absurd hend id
  · exact h j z (by simpa [hj] using hz) hP

theorem Brief.safe (hprog : ∀ op, P op → (prog op).Single) :
    Safe prog (Brief P : Server σ κ ω γ ρ ο ι → Prop) where
  advance _ _ h := h
  begin srv i op h hfresh j x hx hP := by
    by_cases hj : j = i
    · subst hj
      obtain rfl : _ = x := Option.some.inj (by simpa [Server.begin] using hx)
      exact .inl ⟨hprog op hP, hfresh⟩
    · exact h j x (by simpa [Server.begin, hj] using hx) hP
  leave srv i h j x' hx' hP := by
    obtain ⟨x, hx, hop, hrest⟩ := leave_session hx'
    rw [hrest]
    exact h j x hx (hop ▸ hP)
  exec _ _ _ _ h hx := h.exec hx
  answer _ _ _ _ h hx := h.answer hx
  drop srv i s h j x hx hP := by
    obtain ⟨hj, hx⟩ := drop_session hx
    exact (h j x hx hP).imp_left fun hs => ⟨hs.1, fun k hk => hs.2 k ((drop_locks hj s k).1 hk)⟩

/-! ## Leading locks -/

variable {lead : κ → Option κ}

/-- The sessions for operations of the kind hold each lock with the lock that leads it, and
    go on to do so. -/
def Heedful (lead : κ → Option κ) (P : ο → Prop) (srv : Server σ κ ω γ ρ ο ι) : Prop :=
  ∀ i x, srv.sessions i = some x → P x.op →
    (∀ k, srv.locks k = some i → ∀ l ∈ lead k, srv.locks l = some i) ∧
      ∃ H, (∀ k ∈ H, srv.locks k = some i) ∧ x.rest.Heeds lead H

/-- A statement takes each lock after the lock that leads it. -/
theorem Executes.heeds {now : ℕ} {x y : Session σ κ ω γ ρ ο} {keys H : List κ}
    (h : Executes srv i now x keys y) (hH : x.rest.Heeds lead H) :
    (∀ k ∈ keys, ∀ l ∈ lead k, l ∈ keys ++ H) ∧ y.rest.Heeds lead (keys ++ H) := by
  cases h with
  | stmt hrest =>
    rw [hrest] at hH
    exact ⟨hH.1, hH.2 _ _⟩
  | @scan _ _ o hrest =>
    rw [hrest] at hH
    obtain ⟨hlead, hnext⟩ := hH ⟨now, srv.serial⟩ srv.store o
    exact ⟨fun k hk l hl => List.mem_append_right _ (hlead k (Option.mem_toList.1 hk) l hl), hnext⟩
  | read hrest =>
    rw [hrest] at hH
    exact ⟨fun k hk => absurd hk (by simp), hH _ _⟩

theorem Heedful.exec {now : ℕ} (h : Heedful lead P srv) (hx : srv.exec i now = some srv') :
    Heedful lead P srv' := by
  obtain ⟨x, keys, x', hx₁, -, -, -, rfl, hex⟩ := exec_inv hx
  intro j z hz hP
  by_cases hj : j = i
  · subst hj
    obtain rfl : x' = z := Option.some.inj (by simpa [goOn] using hz)
    obtain ⟨hled, H, hH, hrest⟩ := h j x hx₁ (hex.same.1 ▸ hP)
    obtain ⟨hkeys, hnext⟩ := hex.heeds hrest
    have hheld : ∀ k, k ∈ keys ∨ srv.locks k = some j → (srv.goOn j keys x').locks k = some j := by
      intro k hk
      simp only [goOn, take]
      split
      · rfl
      · exact hk.resolve_left ‹_›
    have hall : ∀ k ∈ keys ++ H, (srv.goOn j keys x').locks k = some j := by
      intro k hk
      exact hheld k ((List.mem_append.1 hk).imp_right (hH k))
    refine ⟨fun k hk l hl => ?_, keys ++ H, hall, hnext⟩
    by_cases hmem : k ∈ keys
    · exact hall l (hkeys k hmem l hl)
    · simp only [goOn, take, if_neg hmem] at hk
      exact hheld l (.inr (hled k hk l hl))
  · have hlocks (k : κ) : (srv.goOn i keys x').locks k = some j ↔ srv.locks k = some j :=
      goOn_locks hex.free hj k
    obtain ⟨hled, H, hH, hrest⟩ := h j z (by simpa [goOn, hj] using hz) hP
    exact ⟨fun k hk l hl => (hlocks l).2 (hled k ((hlocks k).1 hk) l hl), H,
      fun k hk => (hlocks k).2 (hH k hk), hrest⟩

theorem Heedful.answer {b : Bool} (h : Heedful lead P srv) (hx : srv.answer i b = some srv') :
    Heedful lead P srv' := by
  obtain ⟨x, c, next, hx₁, hrest, rfl⟩ := answer_cases hx
  intro j z hz hP
  by_cases hj : j = i
  · subst hj
    obtain rfl : _ = z := Option.some.inj (by simpa using hz)
    obtain ⟨hled, H, hH, hheeds⟩ := h j x hx₁ hP
    rw [hrest] at hheeds
    exact ⟨hled, H, hH, hheeds b⟩
  · exact h j z (by simpa [hj] using hz) hP

theorem Heedful.safe (hprog : ∀ op, P op → (prog op).Heeds lead []) :
    Safe prog (Heedful lead P : Server σ κ ω γ ρ ο ι → Prop) where
  advance _ _ h := h
  begin srv i op h hfresh j x hx hP := by
    by_cases hj : j = i
    · subst hj
      obtain rfl : _ = x := Option.some.inj (by simpa [Server.begin] using hx)
      exact ⟨fun k hk => absurd hk (hfresh k), [], by simp, hprog op hP⟩
    · exact h j x (by simpa [Server.begin, hj] using hx) hP
  leave srv i h j x' hx' hP := by
    obtain ⟨x, hx, hop, hrest⟩ := leave_session hx'
    rw [hrest]
    exact h j x hx (hop ▸ hP)
  exec _ _ _ _ h hx := h.exec hx
  answer _ _ _ _ h hx := h.answer hx
  drop srv i s h j x hx hP := by
    obtain ⟨hj, hx⟩ := drop_session hx
    obtain ⟨hled, H, hH, hrest⟩ := h j x hx hP
    exact ⟨fun k hk l hl => (drop_locks hj s l).2 (hled k ((drop_locks hj s k).1 hk) l hl), H,
      fun k hk => (drop_locks hj s k).2 (hH k hk), hrest⟩

end Server

end Locking
