import ScaleQueue.Coverage
import ScaleQueue.Sessions

/-!
# Published messages

What is published for an outbox row stays a message of a row that fits its job
(`Fits`), wherever it is: in the stream, pending in the group, or in the hands of
a worker, delivered once or many times (`Run.circulating`). In particular a
message for the next attempt of a pending job is not early when it is claimed.
-/

namespace ScaleQueue

open Locking

/-! ## What a dispatch waits for -/

theorem insertOutbox_silent {p : Place} {f : ℕ → ℕ} {next : Tx} (h : next.Silent) :
    (insertOutbox p f next).Silent := by
  intro _ t
  dsimp only
  split
  · trivial
  · split
    · trivial
    · exact h

theorem owned_silent {n : ℕ} {next : Tx} (h : next.Silent) : (owned n next).Silent := by
  unfold owned
  split
  · trivial
  · exact h

/-- Only a dispatch waits for something outside of the database. -/
theorem Op.script_silent (cfg : Config) {op : Op} (h : op ≠ .dispatch) :
    (op.script cfg).Silent := by
  cases op with
  | claim id g owner =>
    intro e t
    dsimp only
    split
    · trivial
    · split_ifs
      · trivial
      · trivial
      · trivial
      · exact fun _ _ _ _ => trivial
      · trivial
      · exact fun _ _ _ _ => trivial
  | renew j => exact fun _ _ => owned_silent trivial
  | finish j e message delay =>
    refine fun _ _ => owned_silent fun _ _ => ?_
    split
    · intro _ t
      dsimp only
      split
      · trivial
      · exact insertOutbox_silent trivial
    · trivial
  | dispatch => exact absurd rfl h
  | createJob j =>
    intro e t
    dsimp only
    split
    · exact fun _ _ => insertOutbox_silent trivial
    · trivial
  | requeueJob id =>
    intro e t
    dsimp only
    split
    · trivial
    · split_ifs
      · trivial
      · trivial
      · exact fun _ _ _ _ => insertOutbox_silent trivial
  | selectById => exact fun _ _ => trivial
  | selectByRequestKey => exact fun _ _ => trivial

/-- A dispatch waits for the publication of a row of the outbox that was due. -/
theorem dispatch_calling {s : Tables} {b : Progress Tables Key Write OutboxRow Answer} {lo : Env}
    (h : Exec Looks Logged s ⟨lo, dispatch, [], []⟩ b) {o : OutboxRow} {next : Bool → Tx}
    (hb : b.rest = .call o next) :
    s.out? o.place = some o ∧ ∃ t, o.due t = true ∧ lo.now ≤ t ∧ t ≤ b.since.now := by
  have stop {a : Progress Tables Key Write OutboxRow Answer} (hx : Exec Looks Logged s a b)
      (ha : a.rest.Ended) : False := by
    rw [Exec.ended hx ha] at hb
    rw [hb] at ha
    exact ha
  obtain rfl | ⟨_, hm, hx⟩ := h.cases_head
  · simp [dispatch] at hb
  have hhi := (Exec.since_le hx).1
  cases hm with
  | @scan _ _ _ _ s₀ free picked _ e t h₁ h₁' _ hpick _ hagree =>
    dsimp only at hpick
    cases hdue : nextDue e.now s₀ free with
    | none =>
      rw [hdue] at hpick
      subst hpick
      exact (stop hx trivial).elim
    | some q =>
      rw [hdue] at hpick
      subst hpick
      obtain ⟨hmem, hq, -⟩ := nextDue_some hdue
      have hq₀ : s₀.out? q.place = some q := Tables.out?_of_mem hmem
      have hqs : s.out? q.place = some q := by
        have : s₀.out? q.place = s.out? q.place := hagree (.out q.place) rfl
        rw [← this, hq₀]
      simp only [Option.map_some, hq₀] at hx
      obtain rfl | ⟨_, hm, hx⟩ := hx.cases_head
      · simp at hb
      cases hm with
      | @read _ _ _ v _ _ _ _ _ _ hpast _ =>
        cases hjob : v.job? q.place.jobId with
        | none =>
          simp only [hjob] at hx
          exact (stop hx trivial).elim
        | some job =>
          simp only [hjob] at hx
          split at hx
          · obtain rfl | ⟨_, hm, hx⟩ := hx.cases_head
            · simp at hb
            · cases hm with
              | stmt => exact (stop hx trivial).elim
          · obtain rfl | ⟨_, hm, hx⟩ := hx.cases_head
            · obtain rfl : q = o := by simpa using (Script.call.inj hb).1
              exact ⟨hqs, e.now, hq, h₁, Nat.le_trans h₁' hhi⟩
            · cases hm with
              | @call _ _ _ _ ok =>
                cases ok with
                | false => exact (stop hx trivial).elim
                | true =>
                  obtain rfl | ⟨_, hm, hx⟩ := hx.cases_head
                  · simp at hb
                  · cases hm with
                    | stmt => exact (stop hx trivial).elim

/-- What is published is a row of the outbox that is due. -/
theorem Kept.publishing {cfg : Config} {m : MySQL} (hk : Kept cfg m) {sid : Sid} {o : OutboxRow}
    (h : m.waiting sid = some o) :
    o ∈ (m.store.view o.place.jobId).outbox ∧ o.availableAt ≤ m.clock := by
  unfold Server.waiting at h
  split at h
  · rename_i x hx
    split at h
    · rename_i c next hrest
      obtain rfl := Option.some.inj h
      obtain ⟨n, H, hrun, -, hclock, -⟩ := hk.isolated.runs sid x hx
      by_cases hop : x.op = .dispatch
      · have hrun' : Exec Looks Logged m.store ⟨⟨x.began, 0⟩, dispatch, [], []⟩
            ⟨⟨x.since, n⟩, x.rest, x.writes, H⟩ := by
          simpa [Server.start, hop, Op.script] using hrun
        obtain ⟨ho, t, hdue, -, ht⟩ := dispatch_calling hrun' hrest
        refine ⟨m.store.mem_outboxOf.2 ⟨Tables.out?_mem ho, rfl⟩, ?_⟩
        have : c.availableAt ≤ t := by
          simp only [OutboxRow.due, Bool.and_eq_true, decide_eq_true_eq] at hdue
          exact hdue.1
        exact Nat.le_trans this (Nat.le_trans ht hclock)
      · -- Nothing else waits.
        have := Exec.silent hrun (Op.script_silent cfg hop)
        rw [hrest] at this
        exact absurd this id
    · simp at h
  · simp at h

/-! ## What a worker has got hold of -/

/-- The worker has the entry in hand, or among those it has claimed to recover. -/
def Worker.Has (x : Worker) (e : Redis.Entry Message) : Prop :=
  (∃ batch, x.point = .recovering batch ∧ e ∈ batch) ∨
    ∃ h, x.phase.handle? = some h ∧ h.entry = e

section Steps

variable {cfg : Config} {s s' : State} {w : WorkerId} {x x' : Worker} {fx : Effects} {sid : Sid}

theorem Worker.Has.of_eq {e : Redis.Entry Message} (h : x'.Has e) (hpoint : x'.point = x.point)
    (hphase : ∀ h, x'.phase.handle? = some h →
      ∃ h', x.phase.handle? = some h' ∧ h'.entry = h.entry) : x.Has e := by
  rcases h with ⟨batch, hp, he⟩ | ⟨h, hh, rfl⟩
  · exact .inl ⟨batch, hpoint ▸ hp, he⟩
  · obtain ⟨h', hh', heq⟩ := hphase h hh
    exact .inr ⟨h', hh', heq⟩

/-- After it was handled, an entry is in hand or gone. -/
theorem handle_has {e e' : Redis.Entry Message} (he : (x.handle cfg s w e').1.Has e) :
    e = e' ∨ x.Has e := by
  unfold Worker.handle at he
  split at he
  · exact .inr (he.of_eq rfl fun _ hh => (nomatch hh))
  · rcases he with ⟨batch, hp, he⟩ | ⟨h, hh, rfl⟩
    · exact .inr (.inl ⟨batch, hp, he⟩)
    · obtain rfl := Option.some.inj hh
      exact .inl rfl

theorem cancel_handle {p : Phase} {h : Handle} (hh : p.cancel.handle? = some h) :
    ∃ h', p.handle? = some h' ∧ h'.entry = h.entry := by
  cases p <;> simp_all [Phase.cancel, Phase.handle?] <;> subst hh <;> rfl

/-- What a worker has got hold of was in the stream, or in its hands before. -/
theorem act_has {a : WorkerAct} (h : x.act cfg s w a = some (x', fx)) {e : Redis.Entry Message}
    (he : x'.Has e) : x.Has e ∨ s.stream.Holds e := by
  -- Wherever the loop goes, what it does not recover is in hand.
  have idle {y : Worker} (hy : y.Has e) (hp : y.phase = x.phase)
      (hsub : ∀ batch, y.point = .recovering batch →
        ∃ all, x.point = .recovering all ∧ batch ⊆ all) :
      x.Has e := by
    rcases hy with ⟨batch, hb, he⟩ | hh
    · obtain ⟨all, hall, hsub⟩ := hsub batch hb
      exact .inl ⟨all, hall, hsub he⟩
    · exact .inr (hp ▸ hh)
  cases a with
  | loop reachable =>
    simp only [Worker.act] at h
    split at h
    · split_ifs at h
      · obtain ⟨rfl, -⟩ := Prod.mk.inj (Option.some.inj h)
        exact .inl he
      · obtain ⟨rfl, -⟩ := Prod.mk.inj (Option.some.inj h)
        exact .inl (idle he rfl (by simp))
      · split at h
        · obtain ⟨rfl, -⟩ := Prod.mk.inj (Option.some.inj h)
          exact .inl (idle he rfl (by simp))
        · rename_i hclaim
          obtain ⟨rfl, -⟩ := Prod.mk.inj (Option.some.inj h)
          rcases he with ⟨batch, hb, he⟩ | hh
          · obtain rfl := Point.recovering.inj hb
            exact .inr ((Redis.xautoclaim_holds hclaim).1 e he)
          · exact .inl (.inr hh)
      · obtain ⟨rfl, -⟩ := Prod.mk.inj (Option.some.inj h)
        exact .inl (idle he rfl (by simp))
    · simp at h
  | recover =>
    simp only [Worker.act] at h
    split at h
    · rename_i hpoint hphase
      split at h
      · obtain ⟨rfl, -⟩ := Prod.mk.inj (Option.some.inj h)
        exact .inl (idle he rfl (by simp))
      · split_ifs at h
        · obtain ⟨rfl, -⟩ := Prod.mk.inj (Option.some.inj h)
          exact .inl (idle he rfl (by simp))
        · obtain ⟨rfl, -⟩ := Prod.mk.inj (Option.some.inj h)
          rcases handle_has he with rfl | he
          · exact .inl (.inl ⟨_, hpoint, List.mem_cons_self⟩)
          · exact .inl (idle he rfl fun _ hb =>
              ⟨_, hpoint, Point.recovering.inj hb ▸ List.subset_cons_self _ _⟩)
    · simp at h
  | read reachable =>
    simp only [Worker.act] at h
    split at h
    · split at h
      · split_ifs at h <;> obtain ⟨rfl, -⟩ := Prod.mk.inj (Option.some.inj h)
        · exact .inl he
        · exact .inl (idle he rfl (by simp))
      · rename_i hread
        obtain ⟨-, hread⟩ : reachable = true ∧ _ := by simpa using hread
        split_ifs at h
        · obtain ⟨rfl, -⟩ := Prod.mk.inj (Option.some.inj h)
          exact .inl he
        · split at h <;> obtain ⟨rfl, -⟩ := Prod.mk.inj (Option.some.inj h)
          · exact .inl (idle he rfl (by simp))
          · rcases handle_has he with rfl | he
            · exact .inr ((Redis.xreadgroup_holds hread).1 _ rfl)
            · exact .inl (idle he rfl (by simp))
    · simp at h
  | _ =>
    -- The loop stays where it is, and the delivery in hand, if any, is the same.
    refine .inl (he.of_eq ?_ fun h' hh => ?_)
    · simp only [Worker.act] at h
      grind [Worker.retain, Worker.abandon]
    · simp only [Worker.act] at h
      grind [Worker.retain, Worker.abandon, Phase.handle?, cancel_handle]

end Steps

end ScaleQueue
