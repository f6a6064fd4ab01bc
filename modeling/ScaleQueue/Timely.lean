import ScaleQueue.Budget

/-!
# A timely owner keeps its job

`lease_until` of a claimed job is the deadline for the next `Renew`, or for the
`Finish`. As long as the owner is in time (`Timely`), its lease is active whenever
somebody else looks at the row, however old their reading of the clock is, so the
row stays in the attempt (`Held`) and the owner's own statements find it.
-/

namespace ScaleQueue

open Locking

/-- The runs in which the job of `j` is claimed, and every `Renew` of the job since
    was committed before the deadline that the commit before it had set. `u` is
    the deadline, and `c` the time of the last of these commits. -/
inductive Timely (cfg : Config) (s₀ : State) (j : Job) : List Event → State → ℕ → ℕ → Prop
  | claimed {es es' s s' a sid r u} (h : Run cfg s₀ es s) (hs : s.step cfg a = some (s', es'))
      (hc : .closed sid (.committed (.claim j.id j.generation j.leaseOwner) (.job j)) ∈ es')
      (hr : s'.mysql.store.job? j.id = some r) (hu : r.leaseUntil = some u)
      (htime : s'.mysql.clock < u) : Timely cfg s₀ j (es ++ es') s' u s'.mysql.clock
  | step {es es' s s' a u c} (h : Timely cfg s₀ j es s u c)
      (hs : s.step cfg a = some (s', es'))
      (hrenew : ∀ sid k b, k.id = j.id → .closed sid (.committed (.renew k) b) ∉ es')
      (hfinish : ∀ sid e message delay b,
        .closed sid (.committed (.finish j e message delay) b) ∉ es')
      (htime : s'.mysql.clock < u) : Timely cfg s₀ j (es ++ es') s' u c
  | renewed {es es' s s' a u c sid k b r u'} (h : Timely cfg s₀ j es s u c)
      (hs : s.step cfg a = some (s', es')) (hk : k.id = j.id)
      (hc : .closed sid (.committed (.renew k) b) ∈ es')
      (hr : s'.mysql.store.job? j.id = some r) (hu : r.leaseUntil = some u')
      (htime : s'.mysql.clock < u') : Timely cfg s₀ j (es ++ es') s' u' s'.mysql.clock

/-- The row is in the attempt of `j` until the deadline. -/
structure Held (cfg : Config) (j : Job) (es : List Event) (s : State) (u c : ℕ) : Prop where
  row : ∃ r, s.mysql.store.job? j.id = some r ∧ r.status = .processing ∧ r.In j ∧
    r.leaseUntil = some u
  last : ∃ h₁ h₂, history j.id (closings es) =
    h₁ ++ (.claim j.id j.generation j.leaseOwner, .job j) :: h₂ ∧ ∀ x ∈ h₂, decides x = false
  time : s.mysql.clock < u
  lease : u ≤ c + cfg.lease
  committed : c ≤ s.mysql.clock

section Steps

variable {cfg : Config} {s₀ s s' : State} {j : Job} {es es' : List Event} {u c : ℕ} {sid : Sid}

theorem Timely.run (h : Timely cfg s₀ j es s u c) : Run cfg s₀ es s := by
  induction h with
  | claimed h hs => exact h.step hs
  | step _ hs _ _ _ ih => exact ih.step hs
  | renewed _ hs _ _ _ _ _ ih => exact ih.step hs

/-- While the owner is in time, the row is active for whoever looks at it. -/
theorem Held.active (h : Held cfg j es s u c) {r : JobRow}
    (hr : s.mysql.store.job? j.id = some r) {t : ℕ} (ht : t ≤ s.mysql.clock) :
    r.status = .processing ∧ r.active t = true := by
  obtain ⟨r', hr', hst, -, hu⟩ := h.row
  obtain rfl := Option.some.inj (hr.symm.trans hr')
  exact ⟨hst, by simpa [JobRow.active, hu] using Nat.lt_of_le_of_lt ht h.time⟩

/-- A `Finish` that commits meanwhile is that of the owner. -/
theorem Held.finish (h : Held cfg j es s u c) (hrun : Run cfg s₀ es s) (h₀ : Initial s₀)
    {how : Closing} {db : MySQL} {k : Job} {e : Ending} {message : String} {delay : ℕ} {a : Answer}
    (hc : s.mysql.close sid how = some (db, .committed (.finish k e message delay) a))
    (hid : k.id = j.id) : k = j := by
  obtain ⟨-, h₁', h₂', heq', hh₂'⟩ := hrun.finish h₀ hc
  obtain ⟨h₁, h₂, heq, hh₂⟩ := h.last
  rw [hid, heq] at heq'
  obtain ⟨-, hx, -⟩ := last_split (P := fun x => decides x = true) heq' rfl rfl
    (fun x hx => by simp [hh₂ x hx]) fun x hx => by simp [hh₂' x hx]
  simpa using (Prod.mk.inj hx).2.symm

/-- What is committed on the job while the owner is in time is a `Renew`, the owner's
    `Finish`, or what leaves the row alone. -/
theorem Held.commit (h : Held cfg j es s u c) (hrun : Run cfg s₀ es s) (h₀ : Initial s₀)
    {how : Closing} {db : MySQL} {op : Op} {a : Answer} {lo hi : Env} {v' : JobView}
    (hc : s.mysql.close sid how = some (db, .committed op a))
    (hchange : Change cfg.lease j.id lo hi op a (s.mysql.store.view j.id) v')
    (hhi : hi.now ≤ s.mysql.clock) :
    (∃ k t, op = .renew k ∧ k.id = j.id ∧ t ≤ s.mysql.clock ∧
      ∀ r, s.mysql.store.job? j.id = some r → v'.row = some (r.renew cfg.lease t)) ∨
    (∃ e message delay, op = .finish j e message delay) ∨
    op = .dispatch ∧ v'.row = (s.mysql.store.view j.id).row := by
  generalize hv : s.mysql.store.view j.id = v at hchange
  have hrow {r : JobRow} {logs : List LogRow} {out : List OutboxRow}
      (hv : s.mysql.store.view j.id = ⟨some r, logs, out⟩) :
      s.mysql.store.job? j.id = some r := congrArg JobView.row hv
  cases hchange with
  -- No claim is granted, and none refused for want of budget, while the lease is active.
  | claimed _ hr _ _ _ ht ht' hhi' =>
    exact absurd (h.active (hrow hv) (by omega)) hr.inactive
  | exhausted _ hr _ _ ht ht' hhi' =>
    exact absurd (h.active (hrow hv) (by omega)) hr.inactive
  | @renewed k r _ _ t _ hk _ _ _ hhi' =>
    refine .inl ⟨k, t, rfl, hk, by omega, fun q hq => ?_⟩
    rw [Option.some.inj (hq.symm.trans (hrow hv))]
  | @finished k e message delay _ _ _ _ _ _ _ hk =>
    obtain rfl := h.finish hrun h₀ hc hk
    exact .inr (.inl ⟨_, _, _, rfl⟩)
  | @retried k message delay _ _ _ _ _ _ _ _ hk =>
    obtain rfl := h.finish hrun h₀ hc hk
    exact .inr (.inl ⟨_, _, _, rfl⟩)
  | published => exact .inr (.inr ⟨rfl, rfl⟩)
  | dropped => exact .inr (.inr ⟨rfl, rfl⟩)
  | created =>
    obtain ⟨r, hr, -⟩ := h.row
    have : none = some r := (congrArg JobView.row hv).symm.trans hr
    cases this
  | requeued _ hstatus =>
    have := (h.active (hrow hv) le_rfl).1
    rcases hstatus with hst | hst <;> simp [hst] at this

/-- The claim sets the first deadline. -/
theorem Run.held {a : Action} {r : JobRow} (h : Run cfg s₀ es s) (h₀ : Initial s₀)
    (hs : s.step cfg a = some (s', es'))
    (hc : .closed sid (.committed (.claim j.id j.generation j.leaseOwner) (.job j)) ∈ es')
    (hr : s'.mysql.store.job? j.id = some r) (hu : r.leaseUntil = some u)
    (htime : s'.mysql.clock < u) : Held cfg j (es ++ es') s' u s'.mysql.clock := by
  have hstep := step_cases hs
  obtain ⟨how, db, rfl, hclose, hone, -⟩ := hstep.closed_mem hc
  have hhist : history j.id (closings es') =
      [(.claim j.id j.generation j.leaseOwner, .job j)] := by
    simp [hone, history, committed?, about]
  have hclock : s.mysql.clock ≤ s'.mysql.clock := hstep.steps.clock_le
  have hlast : ∃ h₁ h₂, history j.id (closings (es ++ es')) =
      h₁ ++ (.claim j.id j.generation j.leaseOwner, .job j) :: h₂ ∧ ∀ x ∈ h₂, decides x = false :=
    ⟨history j.id (closings es), [], by rw [closings_append, history_append, hhist], by simp⟩
  have hrow : (s'.mysql.store.view j.id).row = some r := hr
  rcases hstep.view (h.kept h₀) j.id with
    ⟨-, hnil⟩ | ⟨_, _, _, op, b, lo, hi, -, -, hchange, hsame, hhi, -⟩
  · simp [hhist] at hnil
  · obtain ⟨hop, hb⟩ : op = .claim j.id j.generation j.leaseOwner ∧ b = .job j := by
      simpa [hhist, eq_comm] using hsame
    generalize s.mysql.store.view j.id = v at hchange
    generalize s'.mysql.store.view j.id = v' at hchange hrow
    cases hchange with
    | @claimed _ owner q _ _ t₁ t₂ t₃ =>
      obtain rfl := Option.some.inj hrow
      obtain ⟨-, -, rfl⟩ := Op.claim.inj hop
      have hj := Answer.job.inj hb
      obtain rfl : t₂ + cfg.lease = u := Option.some.inj hu
      refine ⟨⟨_, hr, rfl, ?_, rfl⟩, hlast, htime, by omega, le_rfl⟩
      rw [← hj]
      exact ⟨rfl, rfl, rfl, rfl, rfl, rfl⟩
    | _ => simp_all

/-- The claim stays the last word on the job as long as nothing decides. -/
theorem Held.last_append (h : Held cfg j es s u c)
    (hno : ∀ x ∈ history j.id (closings es'), decides x = false) :
    ∃ h₁ h₂, history j.id (closings (es ++ es')) =
      h₁ ++ (.claim j.id j.generation j.leaseOwner, .job j) :: h₂ ∧
      ∀ x ∈ h₂, decides x = false := by
  obtain ⟨h₁, h₂, heq, hh₂⟩ := h.last
  refine ⟨h₁, h₂ ++ history j.id (closings es'), ?_, fun x hx => ?_⟩
  · rw [closings_append, history_append, heq]
    simp
  · rcases List.mem_append.1 hx with hx | hx
    · exact hh₂ x hx
    · exact hno x hx

theorem Timely.held (h : Timely cfg s₀ j es s u c) (h₀ : Initial s₀) : Held cfg j es s u c := by
  induction h with
  | claimed h hs hc hr hu htime => exact h.held h₀ hs hc hr hu htime
  | @step es es' s s' a u c h hs hrenew hfinish htime ih =>
    have hstep := step_cases hs
    have hclock : s.mysql.clock ≤ s'.mysql.clock := hstep.steps.clock_le
    obtain ⟨r, hr, hst, hin, hu⟩ := ih.row
    suffices hsame : s'.mysql.store.job? j.id = some r ∧
        ∀ x ∈ history j.id (closings es'), decides x = false from
      ⟨⟨r, hsame.1, hst, hin, hu⟩, ih.last_append hsame.2, htime, ih.lease,
        Nat.le_trans ih.committed hclock⟩
    rcases hstep.view (h.run.kept h₀) j.id with
      ⟨hsame, hnil⟩ | ⟨sid, how, db, op, b, lo, hi, ha, hc, hchange, hone, hhi, -⟩
    · exact ⟨(congrArg JobView.row hsame).trans hr, by simp [hnil]⟩
    · subst ha
      obtain ⟨_, _, hc', hclosed, -⟩ := hstep.closing
      obtain ⟨rfl, rfl⟩ := Prod.mk.inj (Option.some.inj (hc.symm.trans hc'))
      have hmem : .closed sid (.committed op b) ∈ es' := mem_closings.1 (by simp [hclosed])
      rcases ih.commit h.run h₀ hc hchange hhi with
        ⟨k, t, rfl, hk, -⟩ | ⟨e, message, delay, rfl⟩ | ⟨rfl, hrow⟩
      -- Neither a renewal nor the `Finish` of the owner is committed in this step.
      · exact absurd hmem (hrenew sid k b hk)
      · exact absurd hmem (hfinish sid e message delay b)
      · exact ⟨hrow.trans hr, by simp [hone, decides]⟩
  | @renewed es es' s s' a u c sid k b r u' h hs hk hc hr hu htime ih =>
    have hstep := step_cases hs
    have hclock : s.mysql.clock ≤ s'.mysql.clock := hstep.steps.clock_le
    obtain ⟨q, hq, hst, hin, -⟩ := ih.row
    obtain ⟨how, db, rfl, hclose, hone, -⟩ := hstep.closed_mem hc
    have hhist : history j.id (closings es') = [(.renew k, b)] := by
      simp [hone, history, committed?, about, hk]
    rcases hstep.view (h.run.kept h₀) j.id with
      ⟨-, hnil⟩ | ⟨_, _, _, op, b', lo, hi, -, hclose', hchange, hsame, hhi, -⟩
    · simp [hhist] at hnil
    · obtain ⟨rfl, rfl⟩ : op = .renew k ∧ b' = b := by simpa [hhist, eq_comm] using hsame
      rcases ih.commit h.run h₀ hclose' hchange hhi with
        ⟨k', t, -, -, ht, hrow⟩ | ⟨e, message, delay, hop⟩ | ⟨hop, -⟩
      · have : (s'.mysql.store.view j.id).row = some r := hr
        obtain rfl := Option.some.inj ((hrow q hq).symm.trans this)
        obtain rfl : t + cfg.lease = u' := Option.some.inj hu
        exact ⟨⟨_, hr, hst, ⟨hin.1, hin.2, hin.3, hin.4, hin.5, hin.6⟩, rfl⟩,
          ih.last_append (by simp [hhist, decides]), htime, by omega, le_rfl⟩
      · cases hop
      · cases hop

/-! ## Others -/

/-- Nobody else claims the job meanwhile. -/
theorem Held.claim (h : Held cfg j es s u c) (hrun : Run cfg s₀ es s) (h₀ : Initial s₀)
    {how : Closing} {db : MySQL} {k : Closed Answer Op} {y : Conn} {g : ℕ} {w : WorkerId}
    (hc : s.mysql.close sid how = some (db, k)) (hy : s.mysql.sessions sid = some y)
    (hop : y.op = .claim j.id g w) :
    db.store = s.mysql.store ∧ ∀ q, answerOf k ≠ some (.job q) := by
  rcases (hrun.kept h₀).ends hc hy hop (fun _ => rfl) with
    ⟨a, lo, hi, rfl, hchange, hhi, -⟩ | ⟨a, hi, rfl, hstore, hwhy, -⟩ | ⟨rfl, hstore, -⟩
  · rcases h.commit hrun h₀ hc hchange hhi with ⟨_, _, hop', -⟩ | ⟨_, _, _, hop'⟩ | ⟨hop', -⟩ <;>
      simp at hop'
  · refine ⟨hstore, fun q hq => ?_⟩
    obtain rfl := Option.some.inj hq
    cases hwhy
  · exact ⟨hstore, by simp [answerOf]⟩

/-- A requeue of the job is rejected meanwhile. -/
theorem Held.requeue (h : Held cfg j es s u c) (hrun : Run cfg s₀ es s) (h₀ : Initial s₀)
    {how : Closing} {db : MySQL} {k : Closed Answer Op} {y : Conn}
    (hc : s.mysql.close sid how = some (db, k)) (hy : s.mysql.sessions sid = some y)
    (hop : y.op = .requeueJob j.id) : db.store = s.mysql.store ∧
      (answerOf k = some (.error .jobNotRequeueable) ∨ how = .fail) := by
  obtain ⟨r, hr, hst, -⟩ := h.row
  have hlive {q : JobRow} (hq : s.mysql.store.job? j.id = some q) :
      ¬ (q.status = .dead ∨ q.status = .failed) := by
    obtain rfl := Option.some.inj (hr.symm.trans hq)
    simp [hst]
  rcases (hrun.kept h₀).ends hc hy hop (fun _ => rfl) with
    ⟨a, lo, hi, rfl, hchange, -⟩ | ⟨a, hi, rfl, hstore, hwhy, -⟩ | ⟨rfl, hstore, hfail⟩
  · generalize hv : s.mysql.store.view j.id = v at hchange
    generalize db.store.view j.id = v' at hchange
    cases hchange with
    | requeued _ hstatus => exact absurd hstatus (hlive (congrArg JobView.row hv))
  · cases hwhy with
    | notFound hnone => simp [hr] at hnone
    | notRequeueable => exact ⟨hstore, .inl rfl⟩
    | requeueOutOfRange hq hstatus => exact absurd hstatus (hlive hq)
    | requeueTaken hq hstatus => exact absurd hstatus (hlive hq)
  · exact ⟨hstore, .inr hfail⟩

/-! ## The owner -/

/-- The owner's `Renew` finds its row, and changes it if the clock has advanced. -/
theorem Held.renew (h : Held cfg j es s u c) (hrun : Run cfg s₀ es s) (h₀ : Initial s₀)
    {how : Closing} {db : MySQL} {k : Closed Answer Op} {y : Conn}
    (hc : s.mysql.close sid how = some (db, k)) (hy : s.mysql.sessions sid = some y)
    (hop : y.op = .renew j) (hbegan : c < y.began) :
    k = .committed (.renew j) .done ∨ how = .fail := by
  obtain ⟨r, hr, hst, hin, hu⟩ := h.row
  rcases (hrun.kept h₀).ends hc hy hop (fun _ => rfl) with
    ⟨a, lo, hi, rfl, hchange, -⟩ | ⟨a, hi, rfl, -, hwhy, hhi⟩ | ⟨rfl, -, hfail⟩
  · generalize s.mysql.store.view j.id = v at hchange
    generalize db.store.view j.id = v' at hchange
    cases hchange
    exact .inl rfl
  · cases hwhy with
    | @renewLost _ t hlo hhi' hown =>
      -- The row is owned, so the renewal would not have changed it: but time has passed.
      have := hown r hr (ownedBy_iff.2 ⟨hin.generation, hst, hin.leaseOwner, u, hu, ?_⟩)
      · obtain rfl : u = t + cfg.lease := Option.some.inj (hu.symm.trans this)
        have hlo : y.began ≤ t := hlo
        have := h.lease
        omega
      · have := h.time
        omega
  · exact .inr hfail

/-- The owner's `Finish` finds its row, and the place of the next attempt vacant. -/
theorem Held.finishes (h : Held cfg j es s u c) (hrun : Run cfg s₀ es s) (h₀ : Initial s₀)
    {how : Closing} {db : MySQL} {k : Closed Answer Op} {y : Conn} {e : Ending} {message : String}
    {delay : ℕ} (hc : s.mysql.close sid how = some (db, k)) (hy : s.mysql.sessions sid = some y)
    (hop : y.op = .finish j e message delay)
    (hnew : e = .pending → s₀.mysql.store.job? j.id = none) :
    k = .committed (.finish j e message delay) .done ∨ how = .fail := by
  obtain ⟨r, hr, hst, hin, hu⟩ := h.row
  have same {q : JobRow} (hq : s.mysql.store.job? j.id = some q) : q = r :=
    Option.some.inj (hq.symm.trans hr)
  rcases (hrun.kept h₀).ends hc hy hop (fun _ => rfl) with
    ⟨a, lo, hi, rfl, hchange, -⟩ | ⟨a, hi, rfl, -, hwhy, hhi⟩ | ⟨rfl, -, hfail⟩
  · generalize s.mysql.store.view j.id = v at hchange
    generalize db.store.view j.id = v' at hchange
    cases hchange <;> exact .inl rfl
  · cases hwhy with
    | @finishLost _ _ _ _ t hlo hhi' hnone =>
      have hown : r.ownedBy j t = true :=
        ownedBy_iff.2 ⟨hin.generation, hst, hin.leaseOwner, u, hu, by have := h.time; omega⟩
      simp [hnone r hr] at hown
    | retryTaken hq _ htaken =>
      -- No row of the outbox is beyond the attempt that runs.
      obtain rfl := same hq
      have hcov := (hrun.life h₀ j.id).covered (h₀.sound j.id)
        (by simp [Tables.view, hnew rfl]) _ hr
      exact absurd ((vacant_next hcov.fits).1 hst) htaken
    | retryOutOfRange hq _ hmax =>
      -- The budget of the job was checked when it was created.
      rw [same hq] at hmax
      obtain ⟨j', -, hmr⟩ := (hrun.budgeted h₀ (hnew rfl) r hr).accepted
      have hatt := (hrun.tally h₀ (hnew rfl) hr).attempts_le
      have hgen := ((hrun.kept h₀).sound j.id).le_maxInt r hr
      have hle := j'.input.maxRetries_le
      simp only [maxInt] at hgen hmax
      omega
  · exact .inr hfail

end Steps

/-! ## Timely owners -/

/-- A timely owner keeps its job. Its row stays in the attempt until the deadline, and
    of whatever is done on the job meanwhile, another `Claim` returns no job and
    changes nothing, a requeue is rejected and changes nothing, and the owner's own
    `Renew` and `Finish` succeed, unless the database fails them. -/
theorem timely_owner {cfg : Config} {s₀ s : State} {j : Job} {es : List Event} {u c : ℕ}
    (h₀ : Initial s₀) (h : Timely cfg s₀ j es s u c) :
    (∃ r, s.mysql.store.job? j.id = some r ∧ r.status = .processing ∧ r.In j ∧
      r.leaseUntil = some u) ∧
    ∀ sid how y s' es', s.mysql.sessions sid = some y →
      s.step cfg (.close sid how) = some (s', es') → ∃ k, .closed sid k ∈ es' ∧
        ((∃ g w, y.op = .claim j.id g w) →
          s'.mysql.store = s.mysql.store ∧ ∀ q, answerOf k ≠ some (.job q)) ∧
        (y.op = .requeueJob j.id → s'.mysql.store = s.mysql.store ∧
          (answerOf k = some (.error .jobNotRequeueable) ∨ how = .fail)) ∧
        (y.op = .renew j → c < y.began → k = .committed (.renew j) .done ∨ how = .fail) ∧
        ∀ e message delay, y.op = .finish j e message delay →
          (e = .pending → s₀.mysql.store.job? j.id = none) →
          k = .committed (.finish j e message delay) .done ∨ how = .fail := by
  have hheld := h.held h₀
  refine ⟨hheld.row, fun sid how y s' es' hy hs => ?_⟩
  obtain ⟨db, k, hc, hclosed, hstore⟩ := (step_cases hs).closing
  refine ⟨k, mem_closings.1 (by simp [hclosed]), ?_, ?_, ?_, ?_⟩
  · rintro ⟨g, w, hop⟩
    rw [hstore]
    exact hheld.claim h.run h₀ hc hy hop
  · intro hop
    rw [hstore]
    exact hheld.requeue h.run h₀ hc hy hop
  · exact hheld.renew h.run h₀ hc hy
  · intro e message delay
    exact hheld.finishes h.run h₀ hc hy

/-- The event is not the end of a `Renew` or a `Finish` of the job. -/
def Event.leaves (id : JobId) : Event → Bool
  | .closed _ (.committed (.renew k) _) => k.id ≠ id
  | .closed _ (.committed (.finish k _ _ _) _) => k.id ≠ id
  | _ => true

/-- The actions that can be made end no `Renew` or `Finish` of the job, and all before `u`. -/
def State.leaves (cfg : Config) (id : JobId) (u : ℕ) : State → List Action → Bool
  | _, [] => true
  | s, a :: acts =>
    match s.step cfg a with
    | none => s.leaves cfg id u acts
    | some (s', es) =>
      es.all (·.leaves id) && s'.mysql.clock < u && s'.leaves cfg id u acts

/-- The owner stays in time while nobody renews or finishes. -/
theorem Timely.play {cfg : Config} {s₀ s : State} {j : Job} {es : List Event} {u c : ℕ}
    (h : Timely cfg s₀ j es s u c) (acts : List Action) (hl : s.leaves cfg j.id u acts = true) :
    Timely cfg s₀ j (es ++ (s.play cfg acts).2) (s.play cfg acts).1 u c := by
  induction acts generalizing s es with
  | nil => simpa [State.play] using h
  | cons a acts ih =>
    cases hs : s.step cfg a with
    | none =>
      simp only [State.leaves, hs] at hl
      simp only [State.play, hs]
      exact ih h hl
    | some x =>
      obtain ⟨s', es'⟩ := x
      simp only [State.leaves, hs, Bool.and_eq_true, List.all_eq_true, decide_eq_true_eq] at hl
      obtain ⟨⟨hleaves, htime⟩, hrest⟩ := hl
      simp only [State.play, hs]
      rw [← List.append_assoc]
      refine ih (h.step hs (fun sid k b hk hmem => ?_) (fun sid e message delay b hmem => ?_) htime)
        hrest
      · simpa [Event.leaves, hk] using hleaves _ hmem
      · simpa [Event.leaves] using hleaves _ hmem

/-- A heartbeat of the first attempt has been executed after ten seconds. -/
def firstBeat : State :=
  ((State.after firstClaim).1.play (.defaults id)
    [.advance 10000000, .worker "w" .tick, .exec ⟨.beat "w", 4⟩ 10000000]).1

/-- It is committed. -/
def firstRenewal : State :=
  (firstBeat.play (.defaults id) [.close ⟨.beat "w", 4⟩ .commit]).1

/-- Another worker recovers the message after 31 seconds, and its claim has looked at the
    row. -/
def secondLook : State :=
  (firstRenewal.play (.defaults id)
    [.advance 21000000, .startWorker "v", .worker "v" (.loop true), .worker "v" .recover,
      .exec ⟨.worker "v", 5⟩ 31000000]).1

/-- The claim is rolled back, and the owner has made the statements of its `Finish`. -/
def firstEnd : State :=
  (secondLook.play (.defaults id)
    ([.close ⟨.worker "v", 5⟩ .abort, .worker "w" (.result .ok), .worker "w" (.settle 0)] ++
      List.replicate 4 (.exec ⟨.worker "w", 6⟩ 31000000))).1

/-- The first attempt renews its lease, so that a second worker does not get the job after
    the first deadline, and the owner finishes it. -/
theorem timely_owner_first :
    let j : Job := (NewJob.row (newJob (.defaults id) firstInput firstJob none) 0).toJob "w"
    (∃ s es, firstBeat.step (.defaults id) (.close ⟨.beat "w", 4⟩ .commit) = some (s, es) ∧
      .closed ⟨.beat "w", 4⟩ (.committed (.renew j) .done) ∈ es) ∧
    (∃ s es k, secondLook.step (.defaults id) (.close ⟨.worker "v", 5⟩ .abort) = some (s, es) ∧
      .closed ⟨.worker "v", 5⟩ k ∈ es ∧ s.mysql.store = secondLook.mysql.store ∧
      ∀ q, answerOf k ≠ some (.job q)) ∧
    (∃ s es message, firstEnd.step (.defaults id) (.close ⟨.worker "w", 6⟩ .commit) = some (s, es) ∧
      .closed ⟨.worker "w", 6⟩ (.committed (.finish j .completed message 0) .done) ∈ es) ∧
    ∃ r, firstEnd.mysql.store.job? firstJob = some r ∧ r.status = .processing ∧
      r.leaseUntil = some 40000000 := by
  intro j
  have hclaim : (State.after firstClaim.dropLast).1.step (.defaults id)
      (.close ⟨.worker "w", 3⟩ .commit) = some (_, _) := rfl
  obtain ⟨_, hclaimed⟩ : ∃ es,
      Timely (.defaults id) .fresh j es (State.after firstClaim).1 30000000 0 :=
    ⟨_, .claimed (Run.play _ _ _) hclaim (List.mem_of_getElem? (i := 0) rfl) rfl rfl (by decide)⟩
  have hbeat := hclaimed.play
    [.advance 10000000, .worker "w" .tick, .exec ⟨.beat "w", 4⟩ 10000000] (by decide)
  -- The renewal is in time.
  obtain ⟨⟨s, es⟩, hrenew⟩ := Option.isSome_iff_exists.1 (show (firstBeat.step (.defaults id)
    (.close ⟨.beat "w", 4⟩ .commit)).isSome = true by decide)
  obtain ⟨y, hy, hop, hbegan⟩ : ∃ y, firstBeat.mysql.sessions ⟨.beat "w", 4⟩ = some y ∧
      y.op = .renew j ∧ y.began = 10000000 := ⟨_, rfl, rfl, rfl⟩
  obtain ⟨k, hk, -, -, hdone, -⟩ := (timely_owner .fresh hbeat).2 _ .commit y s es hy hrenew
  obtain rfl := (hdone hop (by omega)).resolve_right (by decide)
  obtain ⟨_, hrenewed⟩ : ∃ es,
      Timely (.defaults id) .fresh j es firstRenewal 40000000 10000000 := by
    obtain ⟨r, hr, hu⟩ : ∃ r, firstRenewal.mysql.store.job? firstJob = some r ∧
        r.leaseUntil = some 40000000 := ⟨_, rfl, rfl⟩
    have hclock : firstRenewal.mysql.clock = 10000000 := by decide
    have hs : firstRenewal = s := by simp [firstRenewal, State.play, hrenew]
    rw [hs] at hr hclock ⊢
    have hnow := Timely.renewed hbeat hrenew rfl hk hr hu (by omega)
    rw [hclock] at hnow
    exact ⟨_, hnow⟩
  have hlook := hrenewed.play [.advance 21000000, .startWorker "v", .worker "v" (.loop true),
    .worker "v" .recover, .exec ⟨.worker "v", 5⟩ 31000000] (by decide)
  have hend := hlook.play ([.close ⟨.worker "v", 5⟩ .abort, .worker "w" (.result .ok),
    .worker "w" (.settle 0)] ++ List.replicate 4 (.exec ⟨.worker "w", 6⟩ 31000000)) (by decide)
  -- The second worker gets nothing.
  obtain ⟨⟨s', es'⟩, habort⟩ := Option.isSome_iff_exists.1 (show (secondLook.step (.defaults id)
    (.close ⟨.worker "v", 5⟩ .abort)).isSome = true by decide)
  obtain ⟨y', hy', hop'⟩ : ∃ y, secondLook.mysql.sessions ⟨.worker "v", 5⟩ = some y ∧
      y.op = .claim firstJob 1 "v" := ⟨_, rfl, rfl⟩
  obtain ⟨k', hk', hsame, -⟩ := (timely_owner .fresh hlook).2 _ .abort y' s' es' hy' habort
  obtain ⟨hstore, hnone⟩ := hsame ⟨_, _, hop'⟩
  obtain ⟨⟨s'', es''⟩, hfinish⟩ := Option.isSome_iff_exists.1 (show (firstEnd.step (.defaults id)
    (.close ⟨.worker "w", 6⟩ .commit)).isSome = true by decide)
  obtain ⟨y'', message, hy'', hop''⟩ : ∃ y message,
      firstEnd.mysql.sessions ⟨.worker "w", 6⟩ = some y ∧
        y.op = .finish j .completed message 0 := ⟨_, _, rfl, rfl⟩
  obtain ⟨⟨r, hr, hst, -, hu⟩, hcommits⟩ := timely_owner .fresh hend
  obtain ⟨k'', hk'', -, -, -, hfinished⟩ := hcommits _ .commit y'' s'' es'' hy'' hfinish
  obtain rfl := (hfinished .completed message 0 hop'' (by decide)).resolve_right (by decide)
  exact ⟨⟨s, es, hrenew, hk⟩, ⟨s', es', k', habort, hk', hstore, hnone⟩,
    ⟨s'', es'', message, hfinish, hk''⟩, r, hr, hst, hu⟩

end ScaleQueue
