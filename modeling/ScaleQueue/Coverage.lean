import ScaleQueue.Generations

/-!
# The outbox carries every job that is not over

A job that is pending has the outbox row of its next attempt, due when the job
is, and a job in progress has a row of its generation that is due (`Covered`).
What makes this inductive is how far the rows of a job may be ahead of it
(`Fits`), which also holds of the messages that were published for them: a
message for the next attempt is not early.
-/

namespace ScaleQueue

open Locking

/-- A row of the outbox at `p`, due from `due` on, is not ahead of the job; if it
    is for the next attempt, the job is due when it is. -/
def Fits (p : Place) (due : ℕ) (r : JobRow) : Prop :=
  p.generation < r.generation ∨ p.generation = r.generation ∧ p.attempt ≤ r.attemptCount + 1 ∧
    (r.status = .processing → p.attempt ≤ r.attemptCount) ∧
    (r.status = .pending → p.attempt = r.attemptCount + 1 → r.nextAttemptAt ≤ due)

/-- The last transaction that decided on the status of the job was a `Finish`. -/
def putBack (h : List (Op × Answer)) : Bool :=
  match (h.filter decides).getLast? with
  | some (.finish _ _ _ _, _) => true
  | _ => false

/-- The outbox carries the job at time `t`. -/
structure Covered (h : List (Op × Answer)) (r : JobRow) (out : List OutboxRow) (t : ℕ) : Prop where
  not_failed : r.status ≠ .failed
  fits : ∀ o ∈ out, Fits o.place o.availableAt r
  pending : r.status = .pending → ∃ o ∈ out, o.place.generation = r.generation ∧
    o.place.attempt = r.attemptCount + 1 ∧ r.nextAttemptAt ≤ o.availableAt ∧
    (o.availableAt = r.nextAttemptAt ∨ o.availableAt ≤ t) ∧
    (putBack h = true → o.availableAt = r.nextAttemptAt)
  processing : r.status = .processing → ∃ o ∈ out, o.place.generation = r.generation ∧
    o.availableAt ≤ t

variable {lease : ℕ} {id : JobId} {lo hi : Env} {op : Op} {a : Answer} {v v' : JobView}
  {h : List (Op × Answer)} {t : ℕ}

theorem putBack_append (h : List (Op × Answer)) (op : Op) (a : Answer) :
    putBack (h ++ [(op, a)]) = match op with
      | .renew _ | .dispatch => putBack h
      | .finish _ _ _ _ => true
      | _ => false := by
  cases op <;> simp [putBack, decides, List.filter_append]

/-- A row that fits keeps fitting, whatever happens to the job. -/
theorem Change.fits (hc : Change lease id lo hi op a v v') {p : Place} {due : ℕ} {r : JobRow}
    (hr : v.row = some r) (hf : Fits p due r) : ∃ r', v'.row = some r' ∧ Fits p due r' := by
  rcases hf with hlt | ⟨hgen, hle, hproc, hpend⟩
  · -- An older generation stays older.
    obtain ⟨r', hr', hprec⟩ := hc.ages r hr
    refine ⟨r', hr', .inl ?_⟩
    rcases hprec.ages with h | ⟨h, -⟩ <;> omega
  cases hc with
  | claimed =>
    obtain rfl := Option.some.inj hr
    refine ⟨_, rfl, .inr ⟨hgen, Nat.le_succ_of_le hle, fun _ => hle, ?_⟩⟩
    simp [JobRow.claim]
  | exhausted =>
    obtain rfl := Option.some.inj hr
    refine ⟨_, rfl, .inr ⟨hgen, hle, ?_, ?_⟩⟩ <;> simp [JobRow.bury]
  | renewed =>
    obtain rfl := Option.some.inj hr
    exact ⟨_, rfl, .inr ⟨hgen, hle, hproc, hpend⟩⟩
  | finished _ _ he hown =>
    obtain rfl := Option.some.inj hr
    refine ⟨_, rfl, .inr ⟨hgen, hle, fun _ => hproc (ownedBy_iff.1 hown).2.1, ?_⟩⟩
    exact fun hp => absurd (Ending.status_eq_pending.1 hp) he
  | retried _ _ hown =>
    obtain rfl := Option.some.inj hr
    have hp := hproc (ownedBy_iff.1 hown).2.1
    refine ⟨_, rfl, .inr ⟨hgen, hle, fun _ => hp, fun _ ha => ?_⟩⟩
    exact absurd ha (Nat.ne_of_lt (Nat.lt_succ_of_le hp))
  | published => exact ⟨r, hr, .inr ⟨hgen, hle, hproc, hpend⟩⟩
  | dropped => exact ⟨r, hr, .inr ⟨hgen, hle, hproc, hpend⟩⟩
  | created => simp at hr
  | requeued =>
    obtain rfl := Option.some.inj hr
    exact ⟨_, rfl, .inl (Nat.lt_succ_of_le (Nat.le_of_eq hgen))⟩

theorem mem_mark {p : Place} {i now : ℕ} {out : List OutboxRow} {q : OutboxRow} :
    q ∈ out.map (·.mark p i now) ↔ ∃ o ∈ out, o.mark p i now = q := List.mem_map

@[simp] theorem mark_availableAt (p : Place) (i now : ℕ) (o : OutboxRow) :
    (o.mark p i now).availableAt = o.availableAt := by
  unfold OutboxRow.mark
  split <;> rfl

/-- Every change keeps the rows of the outbox fitting, those it adds included. -/
theorem Change.fitting (hc : Change lease id lo hi op a v v') (hs : v.Sound)
    (hv : ∀ r ∈ v.row, ∀ o ∈ v.outbox, Fits o.place o.availableAt r) :
    ∀ r ∈ v'.row, ∀ o ∈ v'.outbox, Fits o.place o.availableAt r := by
  intro r' hr'
  have old {r : JobRow} (hr : v.row = some r) {o : OutboxRow} (ho : o ∈ v.outbox) :
      Fits o.place o.availableAt r' := by
    obtain ⟨r'', hr'', hf⟩ := hc.fits hr (hv r hr o ho)
    exact Option.some.inj (hr'.symm.trans hr'') ▸ hf
  intro q hq
  cases hc with
  | retried =>
    obtain rfl := Option.some.inj hr'
    rcases List.mem_append.1 hq with hq | hq
    · exact old rfl hq
    · obtain rfl := List.mem_singleton.1 hq
      exact .inr ⟨rfl, le_rfl, by simp [JobRow.finish], fun _ _ => le_rfl⟩
  | published =>
    obtain ⟨o, ho, rfl⟩ := mem_mark.1 hq
    simpa using old hr' ho
  | dropped => exact old rfl (List.mem_filter.1 hq).1
  | created _ _ hlo h₁₂ h₂₃ =>
    obtain rfl := Option.some.inj hr'
    obtain ⟨-, rfl⟩ := hs.absent rfl
    obtain rfl := List.mem_singleton.1 hq
    exact .inr ⟨rfl, le_rfl, by simp [NewJob.row], fun _ _ => Nat.le_trans h₁₂ h₂₃⟩
  | requeued _ _ _ _ hlo h₁₂ h₂₃ =>
    obtain rfl := Option.some.inj hr'
    rcases List.mem_append.1 hq with hq | hq
    · exact old rfl hq
    · obtain rfl := List.mem_singleton.1 hq
      exact .inr ⟨rfl, le_rfl, by simp [JobRow.requeue], fun _ _ => Nat.le_trans h₁₂ h₂₃⟩
  | claimed => exact old rfl hq
  | exhausted => exact old rfl hq
  | renewed => exact old rfl hq
  | finished => exact old rfl hq

/-- Every change keeps a job carried, at the time it commits. -/
theorem Change.covered (hc : Change lease id lo hi op a v v') (hs : v.Sound) (hhi : hi.now ≤ t)
    (hv : ∀ r ∈ v.row, Covered h r v.outbox t) :
    ∀ r ∈ v'.row, Covered (h ++ [(op, a)]) r v'.outbox t := by
  intro r' hr'
  have hfits := hc.fitting hs (fun r hr => (hv r hr).fits) r' hr'
  cases hc with
  | @claimed _ _ r _ _ t₁ _ _ _ _ hr =>
    obtain rfl := Option.some.inj hr'
    have hcov := hv r rfl
    refine ⟨by simp [JobRow.claim], hfits, by simp [JobRow.claim], fun _ => ?_⟩
    have hterm := hr.live
    cases hst : r.status with
    | pending =>
      -- The row of the attempt that was just claimed is due, as the job was.
      obtain ⟨o, ho, hgen, -, -, hdue, -⟩ := hcov.pending hst
      have hearly : r.nextAttemptAt ≤ t₁ := by simpa [JobRow.early] using hr.not_early
      exact ⟨o, ho, hgen, by omega⟩
    | processing => exact hcov.processing hst
    | failed => exact absurd hst hcov.not_failed
    | completed => exact absurd (.inl hst) hterm
    | dead => exact absurd (.inr hst) hterm
  | @exhausted _ _ r =>
    obtain rfl := Option.some.inj hr'
    exact ⟨by simp [JobRow.bury], hfits, by simp [JobRow.bury], by simp [JobRow.bury]⟩
  | @renewed _ r =>
    obtain rfl := Option.some.inj hr'
    have hcov := hv r rfl
    refine ⟨hcov.not_failed, hfits, fun hp => ?_, hcov.processing⟩
    rw [putBack_append]
    exact hcov.pending hp
  | @finished _ e _ _ r _ _ _ _ _ _ _ he =>
    obtain rfl := Option.some.inj hr'
    refine ⟨?_, hfits, ?_, ?_⟩ <;> cases e <;> simp_all [JobRow.finish, Ending.status]
  | @retried _ _ _ r _ _ t₁ _ n m =>
    obtain rfl := Option.some.inj hr'
    refine ⟨by simp [JobRow.finish], hfits, fun _ => ?_, by simp [JobRow.finish]⟩
    exact ⟨_, List.mem_append_right _ List.mem_cons_self, rfl, rfl, le_rfl, .inl rfl, fun _ => rfl⟩
  | @published o row _ _ _ _ _ _ =>
    have hcov := hv r' hr'
    refine ⟨hcov.not_failed, hfits, fun hp => ?_, fun hp => ?_⟩
    · obtain ⟨o', ho', hrest⟩ := hcov.pending hp
      exact ⟨_, mem_mark.2 ⟨o', ho', rfl⟩, by simpa [putBack_append] using hrest⟩
    · obtain ⟨o', ho', hrest⟩ := hcov.processing hp
      exact ⟨_, mem_mark.2 ⟨o', ho', rfl⟩, by simpa using hrest⟩
  | @dropped o r _ out _ _ _ hover =>
    obtain rfl := Option.some.inj hr'
    have hcov := hv r rfl
    -- The row that goes is not one that carries a job which is not over.
    have hkeep {q : OutboxRow} (hq : q ∈ out) (hgen : q.place.generation = r.generation)
        (hlive : ¬ r.terminal) : q ∈ out.filter fun q => ¬(q.id = o.id ∧ q.place = o.place) := by
      refine List.mem_filter.2 ⟨hq, ?_⟩
      have : q.place ≠ o.place := by
        rintro heq
        rw [heq] at hgen
        rcases hover with hlt | ⟨-, hterm⟩
        · exact absurd hgen (Nat.ne_of_lt hlt)
        · exact hlive hterm
      simp [this]
    refine ⟨hcov.not_failed, hfits, fun hp => ?_, fun hp => ?_⟩
    · obtain ⟨q, hq, hgen, hrest⟩ := hcov.pending hp
      rw [putBack_append]
      exact ⟨q, hkeep hq hgen (by simp [JobRow.terminal, hp]), hgen, hrest⟩
    · obtain ⟨q, hq, hgen, hrest⟩ := hcov.processing hp
      exact ⟨q, hkeep hq hgen (not_terminal_of_processing hp), hgen, hrest⟩
  | @created j _ _ t₁ _ t₃ n m _ _ hlo h₁₂ h₂₃ h₃ =>
    obtain rfl := Option.some.inj hr'
    obtain ⟨-, rfl⟩ := hs.absent rfl
    refine ⟨by simp [NewJob.row], hfits, fun _ => ?_, by simp [NewJob.row]⟩
    rw [putBack_append]
    exact ⟨_, List.mem_singleton_self _, rfl, rfl, Nat.le_trans h₁₂ h₂₃,
      .inr (Nat.le_trans h₃ hhi), by simp⟩
  | @requeued r _ _ t₁ _ t₃ n m _ _ _ _ hlo h₁₂ h₂₃ h₃ =>
    obtain rfl := Option.some.inj hr'
    refine ⟨by simp [JobRow.requeue], hfits, fun _ => ?_, by simp [JobRow.requeue]⟩
    rw [putBack_append]
    exact ⟨_, List.mem_append_right _ List.mem_cons_self, rfl, rfl, Nat.le_trans h₁₂ h₂₃,
      .inr (Nat.le_trans h₃ hhi), by simp⟩

theorem Covered.wait {r : JobRow} {out : List OutboxRow} {t' : ℕ} (hc : Covered h r out t)
    (ht : t ≤ t') : Covered h r out t' where
  not_failed := hc.not_failed
  fits := hc.fits
  pending hp := by
    obtain ⟨o, ho, h₁, h₂, h₃, h₄, h₅⟩ := hc.pending hp
    exact ⟨o, ho, h₁, h₂, h₃, h₄.imp_right fun h => Nat.le_trans h ht, h₅⟩
  processing hp := by
    obtain ⟨o, ho, h₁, h₂⟩ := hc.processing hp
    exact ⟨o, ho, h₁, Nat.le_trans h₂ ht⟩

/-- What fits at first keeps fitting, and so does all that is added. -/
theorem Life.fitting {v₀ : JobView} {t₀ : ℕ} (hl : Life lease id v₀ t₀ h v t) (hs : v₀.Sound)
    (h₀ : ∀ r ∈ v₀.row, ∀ o ∈ v₀.outbox, Fits o.place o.availableAt r) :
    ∀ r ∈ v.row, ∀ o ∈ v.outbox, Fits o.place o.availableAt r := by
  induction hl with
  | start => exact h₀
  | wait _ _ ih => exact ih
  | change hl' hc _ ih => exact hc.fitting (hl'.sound hs) ih

/-- The places of the next attempt and of the next generation are not taken. -/
theorem vacant_next {r : JobRow} {out : List OutboxRow}
    (h : ∀ o ∈ out, Fits o.place o.availableAt r) :
    (r.status = .processing → Vacant ⟨id, r.generation, r.attemptCount + 1⟩ out) ∧
      Vacant ⟨id, r.generation + 1, 1⟩ out := by
  refine ⟨fun hst o ho heq => ?_, fun o ho heq => ?_⟩
  · have hf := h o ho
    rw [heq] at hf
    rcases hf with hlt | ⟨-, -, hproc, -⟩
    · exact absurd hlt (lt_irrefl _)
    · exact absurd (hproc hst) (Nat.not_succ_le_self _)
  · have hf := h o ho
    rw [heq] at hf
    rcases hf with hlt | ⟨hgen, -⟩
    · exact absurd hlt (Nat.not_lt.2 (Nat.le_succ _))
    · exact absurd hgen (Nat.succ_ne_self _)

/-- A job that is carried at first, or is created in its life, stays carried. -/
theorem Life.covered {v₀ : JobView} {t₀ : ℕ} (hl : Life lease id v₀ t₀ h v t) (hs : v₀.Sound)
    (h₀ : ∀ r ∈ v₀.row, Covered [] r v₀.outbox t₀) : ∀ r ∈ v.row, Covered h r v.outbox t := by
  induction hl with
  | start => exact h₀
  | wait _ ht ih => exact fun r hr => (ih r hr).wait ht
  | change hl' hc hhi ih => exact hc.covered (hl'.sound hs) hhi ih

end ScaleQueue
