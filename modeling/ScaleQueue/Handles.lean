import ScaleQueue.Fences

/-!
# Calls of `handle`

Each call of `handle` has its number, and is about one message. How far it has
come tells what happened in it (`Stage`): before the attempt is over no method of
`Store` has failed in it, nobody has cancelled it unnoticed, and its message was
neither retained nor acknowledged. So what `XACK` is issued after can be read off
the phase (`Run.handling`).
-/

namespace ScaleQueue

open Locking

/-- The call of `handle` that an event belongs to. -/
def Event.number? : Event → Option ℕ
  | .delivered _ n _ => some n
  | .started _ n _ => some n
  | .returned _ n _ _ => some n
  | .reported _ n _ _ => some n
  | .cancelled _ n => some n
  | .retained _ n => some n
  | .acked _ n _ _ => some n
  | _ => none

/-- Nothing went wrong by the event: methods of `Store` have answered as expected,
    and `handle` has not ended. -/
def Event.Fine (expected : Method → Option Answer → Prop) : Event → Prop
  | .returned _ _ _ r => r ≠ .panicked
  | .reported _ _ m a => expected m a
  | .retained _ _ => False
  | .acked _ _ _ _ => False
  | _ => True

/-- Nothing went wrong yet in call `n` of `handle`. -/
def Clean (es : List Event) (n : ℕ) (expected : Method → Option Answer → Prop) : Prop :=
  ∀ e ∈ es, e.number? = some n → e.Fine expected

/-- The delivery has claimed the job `j`, and owns it. -/
def Owned (j : Job) (m : Method) (a : Option Answer) : Prop :=
  m = .claim ∧ a = some (.job j) ∨ m = .renew ∧ a = some .done

/-- The delivery has claimed nothing, because there is nothing to do. -/
def Discarded (m : Method) (a : Option Answer) : Prop := m = .claim ∧ ∃ why, a = some (.noJob why)

/-- The outcome of the attempt at `j` was committed. -/
def Persisted (es : List Event) (j : Job) : Prop :=
  ∃ e message delay, (.finish j e message delay, .done) ∈ history j.id (closings es)

/-- What has happened in the delivery that a worker has come this far with. -/
inductive Stage (es : List Event) (w : WorkerId) : Phase → Prop
  | idle : Stage es w .idle
  | claiming {h sid} (hclean : Clean es h.number fun _ _ => False)
      (hlive : .cancelled w h.number ∈ es → h.done = true) : Stage es w (.claiming h sid)
  | running {h j r b} (hclean : b ≠ .failed → Clean es h.number (Owned j))
      (hlive : .cancelled w h.number ∈ es → h.done = true) : Stage es w (.running h j r b)
  | finishing {h j sid} (hclean : Clean es h.number (Owned j))
      (hlive : .cancelled w h.number ∈ es → h.done = true) : Stage es w (.finishing h j sid)
  | finished {h j}
      (hclean : Clean es h.number fun m a => Owned j m a ∨ m = .finish ∧ a = some .done)
      (hdone : Persisted es j)
      (hlive : ∀ es', es' ++ [.cancelled w h.number] <+: es → Persisted es' j) :
      Stage es w (.acking h (some j))
  | discarded {h} (hclean : Clean es h.number Discarded) : Stage es w (.acking h none)

/-- The calls of `handle` that are under way. -/
structure Handling (es : List Event) (s : State) : Prop where
  number : ∀ e ∈ es, ∀ n ∈ e.number?, n < s.handled
  held : ∀ w x h, s.workers w = some x → x.phase.handle? = some h →
    h.number < s.handled ∧ decode h.entry.values = some (h.jobId, h.generation) ∧
      .delivered w h.number h.entry ∈ es
  unique : ∀ w x h w' x' h', s.workers w = some x → x.phase.handle? = some h →
    s.workers w' = some x' → x'.phase.handle? = some h' → h.number = h'.number → w = w'
  stage : ∀ w x, s.workers w = some x → Stage es w x.phase

theorem Clean.append {es es' : List Event} {n : ℕ} {expected : Method → Option Answer → Prop}
    (h : Clean es n expected) (h' : Clean es' n expected) : Clean (es ++ es') n expected :=
  fun e he => (List.mem_append.1 he).elim (h e) (h' e)

theorem Clean.mono {es : List Event} {n : ℕ} {p q : Method → Option Answer → Prop}
    (h : Clean es n p) (hpq : ∀ m a, p m a → q m a) : Clean es n q := by
  intro e he hn
  have := h e he hn
  cases e with
  | reported => exact hpq _ _ this
  | _ => exact this

/-- What belongs to no call, or to another, does not matter. -/
theorem Clean.of_ne {es : List Event} {n : ℕ} {expected : Method → Option Answer → Prop}
    (h : ∀ e ∈ es, e.number? ≠ some n) : Clean es n expected :=
  fun e he hn => absurd hn (h e he)

theorem Persisted.append {es : List Event} {j : Job} (h : Persisted es j) (es' : List Event) :
    Persisted (es ++ es') j := by
  obtain ⟨e, message, delay, hmem⟩ := h
  exact ⟨e, message, delay, by simp [hmem]⟩

/-- A list ends at an element of the first part, or goes on into the second. -/
theorem concat_prefix_append {α : Type} {l l₁ l₂ : List α} {x : α} (h : l ++ [x] <+: l₁ ++ l₂) :
    l ++ [x] <+: l₁ ∨ ∃ k, l = l₁ ++ k ∧ x ∈ l₂ := by
  obtain ⟨t, ht⟩ := h
  rw [List.append_assoc] at ht
  rcases List.append_eq_append_iff.1 ht with ⟨k, hk, hl⟩ | ⟨k, hk, hl⟩
  · cases k with
    | nil =>
      refine .inr ⟨[], by simpa using hk.symm, ?_⟩
      rw [← show [x] ++ t = l₂ by simpa using hl]
      exact List.mem_cons_self
    | cons y k =>
      obtain ⟨rfl, rfl⟩ : x = y ∧ t = k ++ l₂ := by simpa using hl
      exact .inl ⟨k, by simp [hk]⟩
  · refine .inr ⟨k, hk, ?_⟩
    rw [hl]
    simp

section Steps

variable {cfg : Config} {s s' : State} {w : WorkerId} {x x' : Worker} {fx : Effects} {sid : Sid}

theorem Acted.handle (hx : Acted s w x x' fx) {h : Handle} (hh : x'.phase.handle? = some h) :
    (∃ h', x.phase.handle? = some h' ∧ (h = h' ∨ h = h'.cancel) ∧ fx.handles = 0) ∨
    x.phase = .idle ∧ h.number = s.handled ∧ fx.handles = 1 ∧
      decode h.entry.values = some (h.jobId, h.generation) ∧
      .delivered w h.number h.entry ∈ fx.events := by
  cases hx with
  | same hp _ _ hz => exact .inl ⟨h, hp ▸ hh, .inl rfl, hz⟩
  | delivered h' hx hp _ _ hz he hnum _ hdec =>
    rw [hp] at hh
    obtain rfl := Option.some.inj hh
    exact .inr ⟨hx, hnum, hz, hdec, he ▸ List.mem_cons_self⟩
  | malformed _ _ hp => simp [hp, Phase.handle?] at hh
  | ticked hx _ hp _ _ hz => exact .inl ⟨h, by rw [hx]; rwa [hp] at hh, .inl rfl, hz⟩
  | result hx _ hp _ _ hz => exact .inl ⟨h, by rw [hx]; rwa [hp] at hh, .inl rfl, hz⟩
  | panicked _ hp => simp [hp, Phase.handle?] at hh
  | retained _ _ hp => simp [hp, Phase.handle?] at hh
  | settled hx _ _ hp _ _ hz => exact .inl ⟨h, by rw [hx]; rwa [hp] at hh, .inl rfl, hz⟩
  | acked _ hp => simp [hp, Phase.handle?] at hh
  | abandoned _ hp _ _ hz =>
    rw [hp] at hh
    cases hphase : x.phase <;> simp [hphase, Phase.cancel, Phase.handle?] at hh ⊢ <;>
      exact ⟨.inr hh.symm, hz⟩
  | crashed hp => simp [hp, Phase.handle?] at hh

theorem Acted.number (hx : Acted s w x x' fx) {e : Event} (he : e ∈ fx.events) :
    (∃ h, x.phase.handle? = some h ∧ e.number? = some h.number) ∨
      e.number? = some s.handled ∧ fx.handles = 1 := by
  cases hx with
  | same _ _ _ _ he' => simp [he'] at he
  | delivered h _ _ _ _ hz he' hnum =>
    obtain rfl : e = _ := by simpa [he'] using he
    exact .inr ⟨congrArg some hnum, hz⟩
  | malformed _ _ _ _ _ hz he' =>
    rw [he'] at he
    rcases List.mem_cons.1 he with rfl | he
    · exact .inr ⟨rfl, hz⟩
    · obtain rfl := List.mem_singleton.1 he
      exact .inr ⟨rfl, hz⟩
  | ticked _ _ _ _ _ _ he' => simp [he'] at he
  | @result h j b r hx _ _ _ _ _ he' =>
    obtain rfl : e = _ := by simpa [he'] using he
    exact .inl ⟨h, by rw [hx]; rfl, rfl⟩
  | @panicked h j b hx _ _ _ _ he' =>
    rw [he'] at he
    rcases List.mem_cons.1 he with rfl | he
    · exact .inl ⟨h, by rw [hx]; rfl, rfl⟩
    · obtain rfl := List.mem_singleton.1 he
      exact .inl ⟨h, by rw [hx]; rfl, rfl⟩
  | @retained h _ _ _ hx _ _ _ _ _ he' =>
    obtain rfl : e = _ := by simpa [he'] using he
    exact .inl ⟨h, by rw [hx]; rfl, rfl⟩
  | settled _ _ _ _ _ _ _ he' => simp [he'] at he
  | @acked h j hx _ _ _ _ he' =>
    obtain rfl : e = _ := by simpa [he'] using he
    exact .inl ⟨h, by rw [hx]; rfl, rfl⟩
  | @abandoned h hx _ _ _ _ he' =>
    obtain rfl : e = _ := by simpa [he'] using he
    exact .inl ⟨h, hx, rfl⟩
  | crashed _ _ _ _ he' => simp [he'] at he

theorem Told.handle {a : Option Answer} (hx : Told w sid a x x' fx) :
    ∃ h, x.phase.handle? = some h ∧ (∀ h', x'.phase.handle? = some h' → h' = h) ∧
      ∀ e ∈ fx.events, e.number? = some h.number := by
  cases hx with
  | @claimed h j hx _ _ hp he =>
    exact ⟨h, by rw [hx]; rfl, by simp [hp, Phase.handle?, eq_comm], by simp [he, Event.number?]⟩
  | @unregistered h j hx _ _ hp he =>
    exact ⟨h, by rw [hx]; rfl, by simp [hp, Phase.handle?, eq_comm], by simp [he, Event.number?]⟩
  | @nothing h why hx _ hp he =>
    exact ⟨h, by rw [hx]; rfl, by simp [hp, Phase.handle?, eq_comm], by simp [he, Event.number?]⟩
  | @unclaimed h hx _ _ hp he =>
    exact ⟨h, by rw [hx]; rfl, by simp [hp, Phase.handle?], by simp [he, Event.number?]⟩
  | @finished h j hx _ _ hp he =>
    exact ⟨h, by rw [hx]; rfl, by simp [hp, Phase.handle?, eq_comm], by simp [he, Event.number?]⟩
  | @unfinished h j _ hx _ _ hp he =>
    exact ⟨h, by rw [hx]; rfl, by simp [hp, Phase.handle?], by simp [he, Event.number?]⟩
  | @renewed h j r hx _ hp he =>
    exact ⟨h, by rw [hx]; rfl, by simp [hp, Phase.handle?, eq_comm], by simp [he, Event.number?]⟩
  | @unrenewed h j r hx _ hp he =>
    exact ⟨h, by rw [hx]; rfl, by simp [hp, Phase.handle?, eq_comm], by simp [he, Event.number?]⟩

/-! ## Stages -/

/-- A call that was not cancelled before is not cancelled by these events. -/
theorem live_append {es es' : List Event} {h : Handle}
    (hlive : .cancelled w h.number ∈ es → h.done = true) (hno : .cancelled w h.number ∉ es') :
    .cancelled w h.number ∈ es ++ es' → h.done = true :=
  fun hmem => hlive ((List.mem_append.1 hmem).resolve_right hno)

theorem Clean.snoc {es : List Event} {n : ℕ} {expected : Method → Option Answer → Prop} {e : Event}
    (h : Clean es n expected) (he : e.Fine expected) : Clean (es ++ [e]) n expected :=
  h.append fun _ he' _ => List.mem_singleton.1 he' ▸ he

/-- Events of other calls leave a stage as it is. -/
theorem Stage.append {es es' : List Event} {p : Phase} (h : Stage es w p)
    (hne : ∀ h, p.handle? = some h → ∀ e ∈ es', e.number? ≠ some h.number) :
    Stage (es ++ es') w p := by
  have quiet {n : ℕ} (hn : ∀ e ∈ es', e.number? ≠ some n) : .cancelled w n ∉ es' :=
    fun hmem => hn _ hmem rfl
  cases h with
  | idle => exact .idle
  | @claiming h _ hclean hlive =>
    have hne := hne h rfl
    exact .claiming (hclean.append (.of_ne hne)) (live_append hlive (quiet hne))
  | @running h _ _ _ hclean hlive =>
    have hne := hne h rfl
    exact .running (fun hb => (hclean hb).append (.of_ne hne)) (live_append hlive (quiet hne))
  | @finishing h _ _ hclean hlive =>
    have hne := hne h rfl
    exact .finishing (hclean.append (.of_ne hne)) (live_append hlive (quiet hne))
  | @finished h _ hclean hdone hlive =>
    have hne := hne h rfl
    refine .finished (hclean.append (.of_ne hne)) (hdone.append _) fun es₁ hpre => ?_
    rcases concat_prefix_append hpre with hpre | ⟨k, rfl, hmem⟩
    · exact hlive es₁ hpre
    · exact absurd hmem (quiet hne)
  | @discarded h hclean => exact .discarded (hclean.append (.of_ne (hne h rfl)))

/-- A step of the worker takes its delivery to the next stage. -/
theorem Acted.stage {es : List Event} (hx : Acted s w x x' fx) (h : Stage es w x.phase)
    (hnum : ∀ e ∈ es, ∀ n ∈ e.number?, n < s.handled) : Stage (es ++ fx.events) w x'.phase := by
  cases hx with
  | same hp _ _ _ he =>
    rw [hp, he, List.append_nil]
    exact h
  | delivered h' _ hp _ _ _ he hn =>
    -- The call has just begun.
    have hfresh : ∀ e ∈ es, e.number? ≠ some h'.number := fun e he hne =>
      absurd (hnum e he _ hne) (hn ▸ lt_irrefl _)
    rw [hp, he]
    refine .claiming ((Clean.of_ne hfresh).snoc trivial) fun hmem => ?_
    rcases List.mem_append.1 hmem with hmem | hmem
    · exact absurd rfl (hfresh _ hmem)
    · simp at hmem
  | malformed _ _ hp => exact hp ▸ .idle
  | ticked hphase _ hp _ _ _ he =>
    rw [hphase] at h
    rw [hp, he, List.append_nil]
    cases h with
    | running hclean hlive => exact .running (fun _ => hclean (by simp)) hlive
  | result hphase hr hp _ _ _ he =>
    rw [hphase] at h
    rw [hp, he]
    cases h with
    | running hclean hlive =>
      exact .running (fun hb => (hclean hb).snoc hr) (live_append hlive (by simp))
  | panicked _ hp => exact hp ▸ .idle
  | retained _ _ hp => exact hp ▸ .idle
  | settled hphase _ _ hp _ _ _ he =>
    rw [hphase] at h
    rw [hp, he, List.append_nil]
    cases h with
    | running hclean hlive => exact .finishing (hclean (by simp)) hlive
  | acked _ hp => exact hp ▸ .idle
  | @abandoned h' hh hp _ _ _ he =>
    rw [hp, he]
    generalize x.phase = p at h hh
    cases h with
    | idle => cases hh
    | claiming hclean hlive =>
      obtain rfl := Option.some.inj hh
      exact .claiming (h := Handle.cancel _) (hclean.snoc trivial) fun _ => rfl
    | running hclean hlive =>
      obtain rfl := Option.some.inj hh
      exact .running (h := Handle.cancel _) (fun hb => (hclean hb).snoc trivial) fun _ => rfl
    | finishing hclean hlive =>
      obtain rfl := Option.some.inj hh
      exact .finishing (h := Handle.cancel _) (hclean.snoc trivial) fun _ => rfl
    | finished hclean hdone hlive =>
      obtain rfl := Option.some.inj hh
      refine .finished (h := Handle.cancel _) (hclean.snoc trivial) (hdone.append _)
        fun es₁ hpre => ?_
      rcases concat_prefix_append hpre with hpre | ⟨k, rfl, -⟩
      · exact hlive es₁ hpre
      · exact hdone.append k
    | discarded hclean =>
      obtain rfl := Option.some.inj hh
      exact .discarded (h := Handle.cancel _) (hclean.snoc trivial)
  | crashed hp => exact hp ▸ .idle

/-- An answer takes the delivery to the next stage; `Finish` only succeeds when it
    is committed. -/
theorem Told.stage {es l : List Event} {a : Option Answer} (hx : Told w sid a x x' fx)
    (h : Stage es w x.phase) (hpre : ∀ e ∈ l, e.number? = none)
    (hfin : ∀ h' j, x.phase = .finishing h' j sid → a = some .done →
      Persisted (es ++ (l ++ fx.events)) j) : Stage (es ++ (l ++ fx.events)) w x'.phase := by
  have quiet (n : ℕ) {ok : Method → Option Answer → Prop} : Clean l n ok :=
    .of_ne fun e he hn => by simp [hpre e he] at hn
  have hno (n : ℕ) : .cancelled w n ∉ l := fun hmem => by simpa [Event.number?] using hpre _ hmem
  cases hx with
  | claimed hphase ha _ hp he =>
    rw [hphase] at h
    rw [hp, he]
    cases h with
    | claiming hclean hlive =>
      refine .running (fun _ => (hclean.mono fun _ _ => False.elim).append ((quiet _).append ?_))
        (live_append hlive (by simp [hno]))
      intro e he _
      rcases List.mem_cons.1 he with rfl | he
      · exact .inl ⟨rfl, ha⟩
      · obtain rfl := List.mem_singleton.1 he
        trivial
  | unregistered hphase ha _ hp he =>
    rw [hphase] at h
    rw [hp, he]
    cases h with
    | claiming hclean hlive =>
      refine .running (fun _ => (hclean.mono fun _ _ => False.elim).append ((quiet _).snoc ?_))
        (live_append hlive (by simp [hno]))
      exact .inl ⟨rfl, ha⟩
  | nothing hphase ha hp he =>
    rw [hphase] at h
    rw [hp, he]
    cases h with
    | claiming hclean hlive =>
      exact .discarded ((hclean.mono fun _ _ => False.elim).append
        ((quiet _).snoc ⟨rfl, _, ha⟩))
  | unclaimed _ _ _ hp => exact hp ▸ .idle
  | @finished h' j hphase ha hlive' hp he =>
    have hdone := hfin h' j hphase ha
    rw [hphase] at h
    rw [he] at hdone
    rw [hp, he]
    cases h with
    | finishing hclean hlive =>
      refine .finished ((hclean.mono fun _ _ => .inl).append ((quiet _).snoc (.inr ⟨rfl, ha⟩)))
        hdone fun es₁ hpre' => ?_
      -- The call is not cancelled, or it would not have been told.
      have hmem : .cancelled w h'.number ∈ es ++ (l ++ [.reported w h'.number .finish a]) :=
        hpre'.subset (by simp)
      have := live_append hlive (by simp [hno]) hmem
      simp [hlive'] at this
  | unfinished _ _ _ hp => exact hp ▸ .idle
  | renewed hphase ha hp he =>
    rw [hphase] at h
    rw [hp, he]
    cases h with
    | running hclean hlive =>
      refine .running (fun _ => (hclean (by simp)).append ((quiet _).snoc (.inr ⟨rfl, ha⟩)))
        (live_append hlive (by simp [hno]))
  | unrenewed hphase _ hp he =>
    rw [hphase] at h
    rw [hp, he]
    cases h with
    | running hclean hlive =>
      exact .running (fun hb => absurd rfl hb) (live_append hlive (by simp [hno]))

/-! ## Steps -/

theorem Event.worker_of_number {e : Event} {n : ℕ} (h : e.number? = some n) :
    ∃ w, e.worker? = some w := by
  cases e <;> simp_all [Event.number?, Event.worker?]

theorem Delivered.handled_le {b : Option Answer} {es : List Event}
    (hd : Delivered cfg s sid b s' es) : s.handled ≤ s'.handled := by
  cases hd with
  | nobody => exact le_rfl
  | worker => exact Nat.le_add_right _ _
  | dispatcher => exact le_rfl
  | call => exact Nat.le_add_right _ _

theorem Stepped.handled_le {a : Action} {es : List Event} (h : Stepped cfg s a s' es) :
    s.handled ≤ s'.handled := by
  cases h with
  | close _ hd => exact hd.handled_le
  | giveUp _ hd => exact hd.handled_le
  | worker => exact Nat.le_add_right _ _
  | _ => exact le_rfl

/-- An event belongs to a call that is under way, or that has just begun. -/
theorem Stepped.number {a : Action} {es : List Event} (h : Stepped cfg s a s' es) {e : Event}
    (he : e ∈ es) {n : ℕ} (hn : e.number? = some n) :
    (∃ w x h, e.worker? = some w ∧ s.workers w = some x ∧ x.phase.handle? = some h ∧
      h.number = n) ∨ n = s.handled ∧ s'.handled = s.handled + 1 := by
  obtain ⟨w, hw⟩ := Event.worker_of_number hn
  obtain ⟨x', hx'⟩ := h.present he hw
  cases h.turn hx' with
  | idle _ hno => exact absurd hw (hno e he)
  | started => simp at he
  | @acted x fx _ hxw hx =>
    rcases hx.number he with ⟨h', hh, heq⟩ | ⟨heq, hone⟩
    · exact .inl ⟨w, x, h', hw, hxw, hh, Option.some.inj (heq.symm.trans hn)⟩
    · refine .inr ⟨Option.some.inj (hn.symm.trans heq), ?_⟩
      show s.handled + fx.handles = s.handled + 1
      rw [hone]
  | @told x fx sid how db c _ hc hxw hx =>
    obtain ⟨h', hh, -, hev⟩ := hx.handle
    rcases List.mem_cons.1 he with rfl | he
    · cases hn
    · exact .inl ⟨w, x, h', hw, hxw, hh, Option.some.inj ((hev e he).symm.trans hn)⟩
  | @lost x fx sid _ hxw hx =>
    obtain ⟨h', hh, -, hev⟩ := hx.handle
    exact .inl ⟨w, x, h', hw, hxw, hh, Option.some.inj ((hev e he).symm.trans hn)⟩

/-- The call that a worker has under way was so before, or has just begun. -/
theorem Turn.handle {a : Action} {es : List Event} (h : Turn cfg s w x' a s' es) {h' : Handle}
    (hh : x'.phase.handle? = some h') :
    (∃ x h, s.workers w = some x ∧ x.phase.handle? = some h ∧ (h' = h ∨ h' = h.cancel)) ∨
    ∃ act, a = .worker w act ∧ h'.number = s.handled ∧ s'.handled = s.handled + 1 ∧
      decode h'.entry.values = some (h'.jobId, h'.generation) ∧
      .delivered w h'.number h'.entry ∈ es := by
  cases h with
  | idle hw => exact .inl ⟨x', h', hw, hh, .inl rfl⟩
  | started _ hx =>
    subst hx
    cases hh
  | @acted x fx act hw hx =>
    rcases hx.handle hh with ⟨h, hh, heq, -⟩ | ⟨-, hnum, hone, hdec, hmem⟩
    · exact .inl ⟨x, h, hw, hh, heq⟩
    · refine .inr ⟨act, rfl, hnum, ?_, hdec, hmem⟩
      show s.handled + fx.handles = s.handled + 1
      rw [hone]
  | @told x _ _ _ _ _ _ _ hw hx =>
    obtain ⟨h, hold, hsame, -⟩ := hx.handle
    exact .inl ⟨x, h, hw, hold, .inl (hsame h' hh)⟩
  | @lost x _ _ _ hw hx =>
    obtain ⟨h, hold, hsame, -⟩ := hx.handle
    exact .inl ⟨x, h, hw, hold, .inl (hsame h' hh)⟩

/-- A `Finish` that succeeded was committed. -/
theorem Kept.finished {m m' : MySQL} (hk : Kept cfg m) {how : Closing} {c : Closed Answer Op}
    {y : Conn} {j : Job} {e : Ending} {message : String} {delay : ℕ}
    (hc : m.close sid how = some (m', c)) (hy : m.sessions sid = some y)
    (hop : y.op = .finish j e message delay) (ha : answerOf c = some .done) :
    c = .committed (.finish j e message delay) .done := by
  rcases hk.ends hc hy hop (fun _ => rfl) with
    ⟨a, lo, hi, rfl, -⟩ | ⟨a, hi, rfl, -, hwhy, -⟩ | ⟨rfl, -⟩
  · obtain rfl := Option.some.inj ha
    rfl
  · obtain rfl := Option.some.inj ha
    cases hwhy
  · cases ha

theorem Handling.step {es es' : List Event} {a : Action} (h : Handling es s) (hk : Kept cfg s.mysql)
    (hp : Paired none s) (hs : Stepped cfg s a s' es') : Handling (es ++ es') s' := by
  have hle := hs.handled_le
  -- A handle of the state after is one of the state before, or the new one.
  have old {w : WorkerId} {x' : Worker} {h' : Handle} (hw : s'.workers w = some x')
      (hh : x'.phase.handle? = some h') :
      (∃ x h, s.workers w = some x ∧ x.phase.handle? = some h ∧ h.number = h'.number) ∨
      ∃ act, a = .worker w act ∧ h'.number = s.handled ∧ s'.handled = s.handled + 1 := by
    rcases (hs.turn hw).handle hh with ⟨x, h, hw, hh, heq⟩ | ⟨act, ha, hnum, hone, -⟩
    · exact .inl ⟨x, h, hw, hh, by rcases heq with rfl | rfl <;> rfl⟩
    · exact .inr ⟨act, ha, hnum, hone⟩
  constructor
  · intro e he n hn
    rcases List.mem_append.1 he with he | he
    · exact Nat.lt_of_lt_of_le (h.number e he n hn) hle
    · rcases hs.number he hn with ⟨w, x, h', -, hw, hh, rfl⟩ | ⟨rfl, hone⟩
      · exact Nat.lt_of_lt_of_le (h.held w x h' hw hh).1 hle
      · exact hone ▸ Nat.lt_succ_self _
  · intro w x' h' hw hh
    rcases (hs.turn hw).handle hh with ⟨x, h'', hw, hh, heq⟩ | ⟨act, ha, hnum, hone, hdec, hmem⟩
    · obtain ⟨hlt, hdec, hmem⟩ := h.held w x h'' hw hh
      have hmem := List.mem_append_left es' hmem
      rcases heq with rfl | rfl
      · exact ⟨Nat.lt_of_lt_of_le hlt hle, hdec, hmem⟩
      · exact ⟨Nat.lt_of_lt_of_le hlt hle, hdec, hmem⟩
    · exact ⟨by omega, hdec, List.mem_append_right _ hmem⟩
  · intro w x h₁ w' x' h₂ hw hh₁ hw' hh₂ heq
    rcases old hw hh₁ with ⟨y, k, hy, hk, hn⟩ | ⟨act, ha, hn, -⟩ <;>
      rcases old hw' hh₂ with ⟨y', k', hy', hk', hn'⟩ | ⟨act', ha', hn', -⟩
    · exact h.unique w y k w' y' k' hy hk hy' hk' (by omega)
    · have := (h.held w y k hy hk).1
      omega
    · have := (h.held w' y' k' hy' hk').1
      omega
    · exact (Action.worker.inj (ha.symm.trans ha')).1
  · intro w x' hw
    have hturn := hs.turn hw
    cases hturn with
    | idle hw hno =>
      refine (h.stage w x' hw).append fun h' hh e he hn => ?_
      rcases hs.number he hn with ⟨w', x, k, hew, hw', hk, heq⟩ | ⟨heq, -⟩
      · obtain rfl := h.unique w' x k w x' h' hw' hk hw hh heq
        exact hno e he hew
      · have := (h.held w x' h' hw hh).1
        omega
    | started _ hx =>
      subst hx
      exact .idle
    | acted hw' hx => exact hx.stage (h.stage w _ hw') h.number
    | @told x fx sid how db c _ hc hw hx =>
      refine hx.stage (l := [.closed sid c]) (h.stage w x hw) (by simp [Event.number?]) ?_
      intro h' j hphase ha
      obtain ⟨y, hy, x'', hw', hwait⟩ := (hp.waited (.worker w) sid
        (.finish j .completed "" 0) ⟨x, hw, hphase ▸ .finish⟩).resolve_left (by simp)
      obtain rfl := Option.some.inj (hw.symm.trans hw')
      rw [hphase] at hwait
      generalize hop : y.op = op at hwait
      cases hwait with
      | @finish _ _ _ e message delay =>
        refine ⟨e, message, delay, mem_history.2 ⟨⟨sid, mem_closings.2 ?_⟩, rfl⟩⟩
        rw [hk.finished hc hy hop ha]
        simp
    | @lost x fx sid _ hw hx =>
      exact hx.stage (l := []) (h.stage w x hw) (by simp) (by simp)

theorem Run.handling {s₀ : State} {es : List Event} (h : Run cfg s₀ es s) (h₀ : Initial s₀) :
    Handling es s := by
  induction h with
  | refl => exact ⟨by simp, by simp [h₀.workers], by simp [h₀.workers], by simp [h₀.workers]⟩
  | step h hs ih => exact ih.step (h.kept h₀) (h.paired h₀) (step_cases hs)

end Steps

end ScaleQueue
