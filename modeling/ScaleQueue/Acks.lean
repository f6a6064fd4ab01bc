import ScaleQueue.Coverage
import ScaleQueue.Handles

/-!
# Acknowledgements

A message is acknowledged when its job needs it no longer: the row is gone, over
or in another generation, or the outbox carries the next delivery; and when what
the delivery itself has claimed has a committed outcome. A call of `handle` in
which anything fails acknowledges nothing, and its message stays pending.
-/

namespace ScaleQueue

open Locking

/-- The call `n` of `handle` has ended. -/
def State.Gone (s : State) (n : ℕ) : Prop :=
  n < s.handled ∧ ∀ w x h, s.workers w = some x → x.phase.handle? = some h → h.number ≠ n

section Steps

variable {cfg : Config} {s s' : State} {w : WorkerId} {n : ℕ}

/-- Nothing more happens in a call that has ended. -/
theorem Stepped.gone {a : Action} {es : List Event} (h : Stepped cfg s a s' es) (hn : s.Gone n) :
    s'.Gone n ∧ ∀ e ∈ es, e.number? ≠ some n := by
  refine ⟨⟨Nat.lt_of_lt_of_le hn.1 h.handled_le, fun w x' h' hw hh => ?_⟩, fun e he hen => ?_⟩
  · rcases (h.turn hw).handle hh with ⟨x, h'', hw, hh, heq⟩ | ⟨-, -, hnum, -⟩
    · have := hn.2 w x h'' hw hh
      rcases heq with rfl | rfl <;> exact this
    · rw [hnum]
      exact Nat.ne_of_gt hn.1
  · rcases h.number he hen with ⟨w, x, h', -, hw, hh, heq⟩ | ⟨heq, -⟩
    · exact hn.2 w x h' hw hh heq
    · exact Nat.ne_of_lt hn.1 heq

theorem Run.gone {es : List Event} (h : Run cfg s es s') (hn : s.Gone n) :
    s'.Gone n ∧ ∀ e ∈ es, e.number? ≠ some n := by
  induction h with
  | refl => exact ⟨hn, by simp⟩
  | step _ hs ih =>
    obtain ⟨hn', hes⟩ := (step_cases hs).gone ih.1
    refine ⟨hn', fun e he => ?_⟩
    rcases List.mem_append.1 he with he | he
    · exact ih.2 e he
    · exact hes e he

theorem Delivered.not_acked {sid : Sid} {b : Option Answer} {es : List Event}
    (h : Delivered cfg s sid b s' es) {m : Redis.Entry Message} {j : Option Job} :
    .acked w n m j ∉ es := by
  intro hmem
  cases h with
  | nobody => simp at hmem
  | worker _ _ hx => cases returned_cases hx <;> simp_all
  | dispatcher => simp at hmem
  | call _ _ _ hp => simpa [Event.worker?] using proceed_worker hp _ hmem

/-- `XACK` is issued for the delivery in hand, which ends with it. -/
theorem Stepped.acking {a : Action} {es : List Event} (h : Stepped cfg s a s' es)
    {m : Redis.Entry Message} {j : Option Job} (hmem : .acked w n m j ∈ es) :
    ∃ x h x', s.workers w = some x ∧ x.phase = .acking h j ∧ h.number = n ∧ h.entry = m ∧
      s'.workers = Function.update s.workers w (some x') ∧ x'.phase = .idle := by
  cases h with
  | @worker w' _ x x' fx hw _ hx =>
    cases act_cases hx with
    | @acked h j' hphase hp _ _ _ he =>
      obtain ⟨rfl, rfl, rfl, rfl⟩ : w = w' ∧ n = h.number ∧ m = h.entry ∧ j = j' := by
        simpa [he] using hmem
      exact ⟨x, h, x', hw, hphase, rfl, rfl, rfl, hp⟩
    | _ => simp_all
  | close _ hd => exact absurd (by simpa using hmem) hd.not_acked
  | giveUp _ hd => exact absurd hmem hd.not_acked
  | _ => simp at hmem

/-- What a call of `handle` has been through when it issues `XACK`. -/
theorem Stage.acked {es : List Event} {h : Handle} {j : Option Job}
    (hs : Stage es w (.acking h j)) :
    (∀ k a, .reported w h.number k a ∈ es → ∃ b, a = some b ∧ ∀ e, b ≠ .error e) ∧
    (∀ q r, .returned w h.number q r ∈ es → r ≠ .panicked) ∧ .retained w h.number ∉ es ∧
    ∀ q, .reported w h.number .claim (some (.job q)) ∈ es → j = some q ∧ Persisted es q ∧
      ∀ es', es' ++ [.cancelled w h.number] <+: es → Persisted es' q := by
  cases hs with
  | @finished _ q' hclean hdone hlive =>
    refine ⟨fun k a hmem => ?_, fun q r hmem => hclean _ hmem rfl, fun hmem => hclean _ hmem rfl,
      fun q hmem => ?_⟩
    · rcases hclean _ hmem rfl with (⟨-, rfl⟩ | ⟨-, rfl⟩) | ⟨-, rfl⟩ <;> exact ⟨_, rfl, by simp⟩
    · rcases hclean _ hmem rfl with (⟨-, heq⟩ | ⟨hk, -⟩) | ⟨hk, -⟩
      · obtain rfl : q = q' := by simpa using heq
        exact ⟨rfl, hdone, hlive⟩
      · cases hk
      · cases hk
  | discarded hclean =>
    refine ⟨fun k a hmem => ?_, fun q r hmem => hclean _ hmem rfl, fun hmem => hclean _ hmem rfl,
      fun q hmem => ?_⟩
    · obtain ⟨-, why, rfl⟩ := hclean _ hmem rfl
      exact ⟨_, rfl, by simp⟩
    · obtain ⟨-, why, heq⟩ := hclean _ hmem rfl
      simp at heq

end Steps

/-! ## Acknowledgements -/

end ScaleQueue
