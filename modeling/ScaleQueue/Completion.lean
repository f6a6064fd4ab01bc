import ScaleQueue.Healing

/-!
# Every job can come to its end

A job that heals is claimed again, or it is over. As long as it is not over, a claim uses
up an attempt of its generation, and only a request of the API starts another one. So the
workers, which can always heal the job, can end it: the measure is the attempts it has
left.
-/

namespace ScaleQueue

open Locking

/-- The worker processes can go on until the job is over. -/
def State.Ends (cfg : Config) (id : JobId) (s : State) : Prop :=
  ∃ es s', Onward cfg s es s' ∧ s'.Over id

section Ends

variable {cfg : Config} {s s' : State} {es : List Event} {id : JobId} {a : Action} {w : WorkerId}
  {d : ℕ} {p : Place}

theorem Onward.ends (h : Onward cfg s es s') (hs' : s'.Ends cfg id) : s.Ends cfg id := by
  obtain ⟨es', s'', h', hover⟩ := hs'
  exact ⟨_, s'', h.trans h', hover⟩

/-- A claim uses up an attempt of a job that is neither over nor failed, and all else
    leaves the attempts alone. -/
theorem Change.attempts {lease : ℕ} {lo hi : Env} {op : Op} {b : Answer} {v v' : JobView}
    (hc : Change lease id lo hi op b v v') {r r' : JobRow} (hr : v.row = some r)
    (hlive : ¬ r.terminal) (hfail : r.status ≠ .failed) (hr' : v'.row = some r') :
    r'.attemptCount = r.attemptCount + (claims [(op, b)]).length := by
  cases hc with
  | created => cases hr
  | published | dropped =>
    obtain rfl := Option.some.inj (hr.symm.trans hr')
    rfl
  | requeued _ hst =>
    obtain rfl := Option.some.inj hr
    exact absurd hst (not_or.2 ⟨fun hdead => hlive (.inr hdead), hfail⟩)
  | _ =>
    obtain rfl := Option.some.inj hr
    obtain rfl := Option.some.inj hr'
    rfl

/-- The workers go on with a job that is not over, and use up its attempts, or they come to
    end it. -/
theorem Going.spends (h : Going cfg p w d s) (ho : Onward cfg s es s') {r : JobRow}
    (hr : s.mysql.store.job? p.jobId = some r) : s.Ends cfg p.jobId ∨
      Going cfg p w d s' ∧ ∃ r', s'.mysql.store.job? p.jobId = some r' ∧
        r'.attemptCount = r.attemptCount + (claims (history p.jobId (closings es))).length := by
  induction ho with
  | refl => exact .inr ⟨h, r, hr, rfl⟩
  | @step es es' s₁ s₂ a ho hw hs ih =>
    rcases ih with hends | ⟨hgoing, r₁, hr₁, hcount⟩
    · exact .inl hends
    rcases hgoing.step hw hs with hgoing' | hover
    swap
    · exact .inl ⟨_, s₂, ho.step hw hs, hover⟩
    obtain ⟨r', hr', -⟩ := hgoing'.live
    refine .inr ⟨hgoing', r', hr', ?_⟩
    rw [closings_append, history_append, claims_append, List.length_append, ← Nat.add_assoc,
      ← hcount]
    rcases (step_cases hs).view hgoing.reached.kept p.jobId with
      ⟨hsame, hnil⟩ | ⟨_, _, _, op, b, _, _, -, -, hchange, hone, -⟩
    · obtain rfl := Option.some.inj
        (hr₁.symm.trans ((congrArg JobView.row hsame).symm.trans hr'))
      rw [hnil]
      rfl
    · obtain ⟨q, hq, hlive, -⟩ := hgoing.live
      obtain rfl := Option.some.inj (hr₁.symm.trans hq)
      rw [hone]
      exact hchange.attempts hr₁ hlive (hgoing.reached.bounded hr₁).1 hr'

theorem Going.heals (h : Going cfg p w d s) : s.Heals cfg p.jobId := by
  rcases h.poised with hheals | ⟨s₁, x₁, h₁, hpoised⟩
  · exact hheals
  · obtain ⟨s₂, ⟨es₂, ho₂⟩, hripe, e, n, he, hn⟩ := hpoised.published
    exact h₁.heals (ho₂.heals (hripe.heals he hn))

/-- The attempts of a job are few. -/
theorem State.Reached.attempts_le (h : s.Reached cfg id) {r : JobRow}
    (hr : s.mysql.store.job? id = some r) : r.attemptCount ≤ 11 := by
  have hmax := (h.bounded hr).2
  obtain ⟨s₀, es, h₀, hnew, hrun⟩ := h
  have hle := (hrun.tally h₀ hnew hr).attempts_le
  omega

theorem Going.ends (h : Going cfg p w d s) : s.Ends cfg p.jobId := by
  -- By induction on the attempts that any job has left.
  obtain ⟨r, hr, -⟩ := h.live
  induction hn : 11 - r.attemptCount using Nat.strong_induction_on generalizing s r with
  | _ n ih =>
    obtain ⟨es, s', ho, hclaimed | hover⟩ := h.heals
    swap
    · exact ⟨es, s', ho, hover⟩
    rcases h.spends ho hr with hends | ⟨hgoing, r', hr', hcount⟩
    · exact hends
    have hpos : 0 < (claims (history p.jobId (closings es))).length := by
      obtain ⟨sid, g, w, j, hmem⟩ := hclaimed
      refine List.length_pos_of_mem (a := j)
        (List.mem_filterMap.2 ⟨(.claim p.jobId g w, .job j), ?_, rfl⟩)
      exact mem_history.2 ⟨⟨sid, mem_closings.2 hmem⟩, rfl⟩
    have hle := hgoing.reached.attempts_le hr'
    exact ho.ends (ih (11 - r'.attemptCount) (by omega) hgoing r' hr' rfl)

end Ends

/-- From every state of running workers that has a consumer group, the workers can go on by
    themselves until a job that is pending or in progress is completed or dead, unless a
    request of the API is in the middle of a transaction on the row of the job. -/
theorem jobs_end_iff {cfg : Config} {s₀ s : State} {es : List Event} (h₀ : Initial s₀)
    (h : Run cfg s₀ es s) {id : JobId} (hnew : s₀.mysql.store.job? id = none) {r : JobRow}
    (hr : s.mysql.store.job? id = some r) (hst : r.status = .pending ∨ r.status = .processing)
    {w : WorkerId} {x : Worker} (hw : s.workers w = some x) (hup : x.up = true)
    (hgo : x.stopping = false) {d : ℕ} {y : Dispatcher} (hd : s.dispatchers d = some y)
    (hdup : y.up = true) (hdgo : y.stopping = false) (hgroup : s.stream.group.isSome) :
    s.Ends cfg id ↔ ∀ c n, s.mysql.locks (.job id) ≠ some ⟨.call c, n⟩ := by
  have hreach : s.Reached cfg id := ⟨s₀, es, h₀, hnew, h⟩
  have hlive : ¬ r.terminal := by
    rintro (hcom | hdead)
    · simp [hcom] at hst
    · simp [hdead] at hst
  constructor
  · rintro ⟨es', s', ho, hover⟩ c n hlock
    exact Blocked.not_heals ⟨hreach.kept, fun hin => hin c rfl, hlock, r, hr, hlive⟩
      ⟨es', s', ho, .inr hover⟩
  · intro hcalls
    have hinner : ∀ sid, s.mysql.locks (.job id) = some sid → sid.inner :=
      fun sid hlock c hc => hcalls c sid.number (by rw [hlock, ← hc])
    obtain ⟨p, rfl, hgen, hout⟩ := hreach.listed hr hlive
    obtain ⟨o, stopping, up⟩ := y
    refine Going.ends (p := p) (w := w) (d := d) ⟨hreach, ⟨x, hw, hup, hgo⟩, ⟨o, by simp_all⟩,
      hgroup, ?_, ⟨r, hr, hlive, hgen.symm⟩, hout⟩
    rintro k (rfl | rfl) sid hlock
    · exact hinner sid hlock
    · by_contra hout
      exact hout (hinner sid (h.leading h₀ hlock hout))

/-- The first job can be ended while its first attempt is under way. -/
theorem jobs_end_iff_first : (State.after firstClaim).1.Ends (.defaults id) firstJob := by
  have hfree : (State.after firstClaim).1.mysql.locks (.job firstJob) = none := rfl
  refine (jobs_end_iff .fresh (Run.play _ _ _) rfl rfl (.inr (by decide)) (w := "w") rfl rfl rfl
    (d := 0) rfl rfl rfl (by decide)).2 fun c n => ?_
  exact fun heq => absurd (hfree.symm.trans heq) (by simp)

end ScaleQueue
