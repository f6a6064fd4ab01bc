import ScaleQueue.Locking.Server

/-!
# A session by itself

One session that runs its statements with nobody else at work: it takes the locks that
nobody holds, and nothing else changes but its own progress (`Server.Solo`). When it is
closed, everything is as before, except for what it has written (`Server.After`).
-/

set_option linter.unusedSectionVars false

namespace Locking

namespace Server

variable {σ κ ω γ ρ ο ι : Type} [DecidableEq κ] [DecidableEq ι] [Lockable σ κ]
  [Writable ω σ κ] {srv₀ srv : Server σ κ ω γ ρ ο ι} {i : ι} {op : ο} {began since : ℕ}
  {W : List ω}

/-- Since `srv₀`, in which it held no lock, session `i` has run by itself, and come to `x`. -/
structure Solo (srv₀ : Server σ κ ω γ ρ ο ι) (i : ι) (x : Session σ κ ω γ ρ ο)
    (srv : Server σ κ ω γ ρ ο ι) : Prop where
  store : srv.store = srv₀.store
  clock : srv.clock = srv₀.clock
  fresh : ∀ k, srv₀.locks k ≠ some i
  locks : ∀ k, srv.locks k = srv₀.locks k ∨ srv₀.locks k = none ∧ srv.locks k = some i
  session : srv.sessions i = some x
  since_le : x.since ≤ srv₀.clock
  attended : x.attended = true

/-- Since `srv₀`, session `i` has run by itself and was closed, leaving the store `s`. -/
structure After (srv₀ : Server σ κ ω γ ρ ο ι) (i : ι) (s : σ) (srv : Server σ κ ω γ ρ ο ι) :
    Prop where
  store : srv.store = s
  clock : srv.clock = srv₀.clock
  locks : srv.locks = srv₀.locks

variable {x : Session σ κ ω γ ρ ο}

theorem Solo.begin (prog : ο → Script σ κ ω γ ρ) (op : ο) (hfresh : ∀ k, srv.locks k ≠ some i) :
    Solo srv i ⟨op, srv.clock, srv.clock, true, prog op, []⟩ (srv.begin i prog op) :=
  ⟨rfl, rfl, hfresh, fun _ => .inl rfl, Function.update_self _ _ _, Nat.le_refl _, rfl⟩

/-- Free is what was free before. -/
theorem Solo.free_eq (h : Solo srv₀ i x srv) : srv.free i = fun k => srv₀.locks k = none := by
  funext k
  rw [Server.free]
  rcases h.locks k with hk | ⟨hnone, hk⟩
  · simp [hk, h.fresh k]
  · simp [hk, hnone]

theorem Solo.ready (h : Solo srv₀ i x srv) :
    x.attended = true ∧ x.since ≤ srv₀.clock ∧ srv₀.clock ≤ srv.clock :=
  ⟨h.attended, h.since_le, Nat.le_of_eq h.clock.symm⟩

/-- The session goes on, with more locks or not. -/
theorem Solo.goOn (h : Solo srv₀ i x srv) {keys : List κ} (hkeys : ∀ k ∈ keys, srv₀.locks k = none)
    (rest : Script σ κ ω γ ρ) (W : List ω) :
    Solo srv₀ i { x with since := srv.clock, rest := rest, writes := W }
      (srv.goOn i keys { x with since := srv.clock, rest := rest, writes := W }) := by
  refine ⟨h.store, h.clock, h.fresh, fun k => ?_, Function.update_self _ _ _,
    Nat.le_of_eq h.clock, h.attended⟩
  by_cases hk : k ∈ keys
  · exact .inr ⟨hkeys k hk, if_pos hk⟩
  · simpa [Server.goOn, take, hk] using h.locks k

theorem Solo.stmt {keys : List κ} {write : Env → σ → List ω} {next : Env → σ → Script σ κ ω γ ρ}
    (h : Solo srv₀ i x srv) (hx : x.rest = .stmt keys write next)
    (hkeys : ∀ k ∈ keys, srv₀.locks k = none) :
    ∃ srv' e, e.now = srv₀.clock ∧ srv.exec i srv₀.clock = some srv' ∧
      Solo srv₀ i { x with
        since := srv.clock, rest := next e (applyAll srv₀.store x.writes)
        writes := x.writes ++ write e (applyAll srv₀.store x.writes) } srv' := by
  refine ⟨_, ⟨srv₀.clock, srv.serial⟩, rfl, ?_, h.goOn hkeys _ _⟩
  have hfree : ∀ k ∈ keys, srv.free i k = true := by
    rw [h.free_eq]
    exact fun k hk => decide_eq_true (hkeys k hk)
  simp only [exec, h.session, if_pos h.ready, hx, h.store]
  rw [if_pos hfree]

theorem Solo.scan {pick : Env → σ → (κ → Bool) → Option κ}
    {next : Env → σ → Option κ → Script σ κ ω γ ρ} (h : Solo srv₀ i x srv)
    (hx : x.rest = .scan pick next) {k : κ} (hk : srv₀.locks k = none)
    (hpick : ∀ n, pick ⟨srv₀.clock, n⟩ srv₀.store (fun k => srv₀.locks k = none) = some k) :
    ∃ srv' e, srv.exec i srv₀.clock = some srv' ∧
      Solo srv₀ i { x with since := srv.clock, rest := next e srv₀.store (some k) } srv' := by
  have hkeys : ∀ k' ∈ [k], srv₀.locks k' = none := fun k' hk' => List.mem_singleton.1 hk' ▸ hk
  refine ⟨_, ⟨srv₀.clock, srv.serial⟩, ?_, h.goOn hkeys _ _⟩
  simp only [exec, h.session, if_pos h.ready, hx, h.store, h.free_eq, hpick]
  rw [if_pos (decide_eq_true hk)]

theorem Solo.read {next : Env → σ → Script σ κ ω γ ρ} (h : Solo srv₀ i x srv)
    (hx : x.rest = .read next) : ∃ srv' e, srv.exec i srv₀.clock = some srv' ∧
      Solo srv₀ i { x with since := srv.clock, rest := next e srv₀.store } srv' := by
  have hkeys : ∀ k' ∈ ([] : List κ), srv₀.locks k' = none := fun _ hk' => nomatch hk'
  refine ⟨_, ⟨srv₀.clock, srv.serial⟩, ?_, h.goOn hkeys _ _⟩
  simp only [exec, h.session, if_pos h.ready, hx, h.store]

theorem Solo.answer {c : γ} {next : Bool → Script σ κ ω γ ρ} (h : Solo srv₀ i x srv)
    (hx : x.rest = .call c next) (b : Bool) : srv.waiting i = some c ∧
      ∃ srv', srv.answer i b = some srv' ∧
        Solo srv₀ i { x with since := srv.clock, rest := next b } srv' := by
  refine ⟨by simp only [waiting, h.session, hx], { srv with
    sessions := Function.update srv.sessions i
      (some { x with since := srv.clock, rest := next b }) }, ?_, ?_⟩
  · simp only [Server.answer, h.session, hx]
  · exact ⟨h.store, h.clock, h.fresh, h.locks, Function.update_self _ _ _,
      Nat.le_of_eq h.clock, h.attended⟩

theorem Solo.drop (h : Solo srv₀ i x srv) (s : σ) : After srv₀ i s (srv.drop i s) := by
  refine ⟨rfl, h.clock, funext fun k => ?_⟩
  rcases h.locks k with hk | ⟨hnone, hk⟩
  · simp [Server.drop, release, hk, h.fresh k]
  · simp [Server.drop, release, hk, hnone]

theorem Solo.commit {r : ρ} (h : Solo srv₀ i x srv) (hx : x.rest = .commit r) :
    ∃ srv', srv.close i .commit = some (srv', .committed x.op r) ∧
      After srv₀ i (applyAll srv₀.store x.writes) srv' := by
  refine ⟨srv.drop i (applyAll srv₀.store x.writes), ?_, h.drop _⟩
  simp only [Server.close, h.session, hx, h.store]

end Server

end Locking
