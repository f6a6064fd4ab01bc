import ScaleQueue.Answers
import ScaleQueue.Browsing
import ScaleQueue.Completion
import ScaleQueue.Outbox

/-!
# The queue can be emptied

What the workers can do for one job by themselves they can do for all: they end one job
after the other, and since none is created or requeued by them, the jobs that are not over
become fewer. Then no row of the outbox has anything left to wait for, and the calls of
`Dispatch` delete one after the other. So from every state in which no request of the API
has locked a job, the workers can come to where every job is over, and the outbox is empty
(`queue_empties`).
-/

namespace ScaleQueue

open Locking

/-! ## Only requests of the API make work -/

/-- The state is reached in a run from tables without jobs. -/
def State.Grown (cfg : Config) (s : State) : Prop :=
  ∃ s₀ es, Initial s₀ ∧ s₀.mysql.store.jobs = [] ∧ Run cfg s₀ es s

/-- The transaction creates a job, or puts one back. -/
inductive Op.Adds : Op → Prop
  | createJob (j : NewJob) : Op.Adds (.createJob j)
  | requeueJob (id : JobId) : Op.Adds (.requeueJob id)

section Adds

variable {cfg : Config} {s₀ s s' : State} {es : List Event} {sid : Sid} {a : Action} {id : JobId}

theorem Run.adding (h : Run cfg s₀ es s) (h₀ : Initial s₀) {y : Conn}
    (hy : s.mysql.sessions sid = some y) (hop : y.op.Adds) : ¬ sid.inner := by
  induction h generalizing y with
  | refl => simp [h₀.sessions] at hy
  | step h hs ih =>
    cases (step_cases hs).continues (h.paired h₀) hy with
    | stays hy' hop' => exact ih hy' (hop' ▸ hop)
    | runs _ hy' hop' => exact ih hy' (hop' ▸ hop)
    | answered hy' hop' => exact ih hy' (hop' ▸ hop)
    | opened _ _ _ hby =>
      generalize hparty : sid.party = party at hby
      generalize y.op = op at hop hby
      cases hop <;> cases hby <;> exact fun hin => hin _ hparty

theorem State.Grown.reached (h : s.Grown cfg) (id : JobId) : s.Reached cfg id := by
  obtain ⟨s₀, es, h₀, hnone, hrun⟩ := h
  exact ⟨s₀, es, h₀, by simp [Tables.job?, hnone], hrun⟩

theorem State.Grown.onward (h : s.Grown cfg) (ho : Onward cfg s es s') : s'.Grown cfg := by
  obtain ⟨s₀, es₀, h₀, hnone, hrun⟩ := h
  exact ⟨s₀, _, h₀, hnone, hrun.trans ho.run⟩

theorem Change.finished_view {lease : ℕ} {lo hi : Env} {op : Op} {b : Answer} {v v' : JobView}
    (hc : Change lease id lo hi op b v v') (hop : ¬ op.Adds) (hover : ∀ r ∈ v.row, r.terminal) :
    v'.row = v.row ∧ ∀ q ∈ v'.outbox, ∃ o ∈ v.outbox, o.place = q.place := by
  have owned {j : Job} {r : JobRow} {t : ℕ} (hr : r.terminal) (hown : r.ownedBy j t = true) :
      False := by
    have hst := (ownedBy_iff.1 hown).2.1
    rcases hr with hst' | hst' <;> simp [hst] at hst'
  cases hc with
  | claimed _ hclaim => exact absurd (hover _ rfl) hclaim.live
  | exhausted _ hclaim => exact absurd (hover _ rfl) hclaim.live
  | renewed _ _ hown => exact (owned (hover _ rfl) hown).elim
  | finished _ _ _ hown => exact (owned (hover _ rfl) hown).elim
  | retried _ _ hown => exact (owned (hover _ rfl) hown).elim
  | published =>
    refine ⟨rfl, fun q hq => ?_⟩
    obtain ⟨o, ho, rfl⟩ := List.mem_map.1 hq
    exact ⟨o, ho, (OutboxRow.mark_place ..).symm⟩
  | dropped => exact ⟨rfl, fun q hq => ⟨q, (List.mem_filter.1 hq).1, rfl⟩⟩
  | created => exact absurd (.createJob _) hop
  | requeued => exact absurd (.requeueJob _) hop

/-- What the workers do creates no job and puts none back. -/
theorem Working.view (h : s.Grown cfg) (hw : Working s a) (hs : s.step cfg a = some (s', es))
    (id : JobId) : s'.mysql.store.view id = s.mysql.store.view id ∨ ∃ op b lo hi, ¬ op.Adds ∧
      Change cfg.lease id lo hi op b (s.mysql.store.view id) (s'.mysql.store.view id) := by
  rcases (step_cases hs).view (h.reached id).kept id with
    ⟨hsame, -⟩ | ⟨sid, how, db, op, b, lo, hi, rfl, hc, hchange, -⟩
  · exact .inl hsame
  · refine .inr ⟨op, b, lo, hi, fun hop => ?_, hchange⟩
    obtain ⟨s₀, es₀, h₀, -, hrun⟩ := h
    obtain ⟨y, hy, rfl, -⟩ := commit_session hc
    exact hrun.adding h₀ hy hop hw.close_inner

/-- A job that is over, or does not exist, stays so, and its places become no more. -/
theorem Working.keeps (h : s.Grown cfg) (hw : Working s a) (hs : s.step cfg a = some (s', es))
    (hover : ∀ r ∈ s.mysql.store.job? id, r.terminal) :
    s'.mysql.store.job? id = s.mysql.store.job? id ∧ ∀ p : Place, p.jobId = id →
      (s'.mysql.store.out? p).isSome → (s.mysql.store.out? p).isSome := by
  rcases Working.view h hw hs id with hsame | ⟨op, b, lo, hi, hop, hchange⟩
  · refine ⟨congrArg JobView.row hsame, fun p hp hsome => ?_⟩
    obtain ⟨q, hq⟩ := Option.isSome_iff_exists.1 hsome
    have hmem := (mem_view_outbox hq).1
    rw [hp, hsame] at hmem
    exact Option.isSome_iff_exists.2 ⟨q, Tables.out?_place hq ▸
      Tables.out?_of_mem ((s.mysql.store.mem_outboxOf).1 hmem).1⟩
  · obtain ⟨hrow, hplaces⟩ := hchange.finished_view hop hover
    refine ⟨hrow, fun p hp hsome => ?_⟩
    obtain ⟨q, hq⟩ := Option.isSome_iff_exists.1 hsome
    obtain ⟨o, ho, hplace⟩ := hplaces q (hp ▸ (mem_view_outbox hq).1)
    have hmem := ((s.mysql.store.mem_outboxOf).1 ho).1
    exact Option.isSome_iff_exists.2
      ⟨o, (hplace.trans (Tables.out?_place hq)) ▸ Tables.out?_of_mem hmem⟩

end Adds

/-! ## Every job comes to its end -/

/-- The worker processes run, with a consumer group, and no request of the API has locked a
    job. -/
structure Serving (cfg : Config) (w : WorkerId) (d : ℕ) (s : State) : Prop where
  grown : s.Grown cfg
  worker : ∃ x, s.workers w = some x ∧ x.up = true ∧ x.stopping = false
  dispatcher : ∃ o, s.dispatchers d = some ⟨o, false, true⟩
  group : s.stream.group.isSome
  inner : ∀ id sid, s.mysql.locks (.job id) = some sid → sid.inner

/-- The job is there, and not over. -/
def State.Unfinished (s : State) (id : JobId) : Prop :=
  ∃ r, s.mysql.store.job? id = some r ∧ ¬ r.terminal

section Serving

variable {cfg : Config} {s s' : State} {es : List Event} {w : WorkerId} {d : ℕ} {a : Action}
  {id : JobId}

theorem Serving.step (h : Serving cfg w d s) (hw : Working s a)
    (hs : s.step cfg a = some (s', es)) : Serving cfg w d s' := by
  have hst := step_cases hs
  obtain ⟨x, hx, hup, hgo⟩ := h.worker
  obtain ⟨o, ho⟩ := h.dispatcher
  refine ⟨h.grown.onward (.one hw hs), hst.works hw hx hup hgo, hst.dispatches hw ho,
    hst.group hw h.group, fun id sid hlock => ?_⟩
  rcases hst.locks hlock with hlock | ⟨now, rfl⟩
  · exact h.inner id sid hlock
  · exact hw.inner

theorem Serving.onward (h : Serving cfg w d s) (ho : Onward cfg s es s') :
    Serving cfg w d s' := by
  induction ho with
  | refl => exact h
  | step _ hw hs ih => exact ih.step hw hs

/-- No request has locked a place either. -/
theorem Serving.inner_out (h : Serving cfg w d s) {p : Place} {sid : Sid}
    (hlock : s.mysql.locks (.out p) = some sid) : sid.inner := by
  obtain ⟨s₀, es, h₀, -, hrun⟩ := h.grown
  by_contra hout
  exact hout (h.inner _ _ (hrun.leading h₀ hlock hout))

theorem Serving.ends (h : Serving cfg w d s) (hun : s.Unfinished id) : s.Ends cfg id := by
  obtain ⟨r, hr, hlive⟩ := hun
  obtain ⟨p, rfl, hgen, hout⟩ := (h.grown.reached id).listed hr hlive
  refine Going.ends (p := p) (w := w) (d := d) ⟨h.grown.reached _, h.worker, h.dispatcher, h.group,
    ?_, ⟨r, hr, hlive, hgen.symm⟩, hout⟩
  rintro k (rfl | rfl) sid hlock
  · exact h.inner _ _ hlock
  · exact h.inner_out hlock

/-- While the workers go on, jobs only come to their end. -/
theorem Serving.finishes (h : Serving cfg w d s) (ho : Onward cfg s es s')
    (hun : ¬ s.Unfinished id) :
    s'.mysql.store.job? id = s.mysql.store.job? id ∧ ∀ p : Place, p.jobId = id →
      (s'.mysql.store.out? p).isSome → (s.mysql.store.out? p).isSome := by
  induction ho with
  | refl => exact ⟨rfl, fun _ _ h => h⟩
  | @step es es' s₁ s₂ a ho hw hs ih =>
    obtain ⟨hrow, hplaces⟩ := ih
    have hover : ∀ r ∈ s₁.mysql.store.job? id, r.terminal := fun r hr => by
      by_contra hlive
      exact hun ⟨r, hrow ▸ hr, hlive⟩
    obtain ⟨hrow', hplaces'⟩ := Working.keeps (h.onward ho).grown hw hs hover
    exact ⟨hrow'.trans hrow, fun p hp hsome => hplaces p hp (hplaces' p hp hsome)⟩

theorem Serving.unfinished (h : Serving cfg w d s) (ho : Onward cfg s es s')
    (hun : s'.Unfinished id) : s.Unfinished id := by
  by_contra hover
  obtain ⟨r, hr, hlive⟩ := hun
  exact hover ⟨r, (h.finishes ho hover).1 ▸ hr, hlive⟩

theorem State.Over.finished (h : s.Over id) : ¬ s.Unfinished id := by
  rintro ⟨r, hr, hlive⟩
  obtain ⟨r', hr', hover⟩ := h
  obtain rfl := Option.some.inj (hr.symm.trans hr')
  exact hlive hover

/-- The workers can go on until every job is over. -/
theorem Serving.all_end (h : Serving cfg w d s) :
    ∃ es s', Onward cfg s es s' ∧ ∀ id, ¬ s'.Unfinished id := by
  -- By induction on the jobs that may be unfinished.
  obtain ⟨ids, hids⟩ : ∃ ids : List JobId, ∀ id, s.Unfinished id → id ∈ ids :=
    ⟨s.mysql.store.jobs.map (·.id), fun id ⟨r, hr, _⟩ =>
      Tables.job?_id hr ▸ List.mem_map_of_mem (Tables.job?_mem hr)⟩
  induction ids generalizing s with
  | nil => exact ⟨[], s, .refl, fun id hun => absurd (hids id hun) List.not_mem_nil⟩
  | cons id ids ih =>
    have rest {t : State} (hsub : ∀ i, t.Unfinished i → s.Unfinished i) (hid : ¬ t.Unfinished id)
        (i : JobId) (hi : t.Unfinished i) : i ∈ ids := by
      refine (List.mem_cons.1 (hids i (hsub i hi))).resolve_left ?_
      rintro rfl
      exact hid hi
    by_cases hun : s.Unfinished id
    · obtain ⟨es, s₁, ho, hover⟩ := h.ends hun
      obtain ⟨es', s', ho', hall⟩ :=
        ih (h.onward ho) (rest (fun _ => h.unfinished ho) hover.finished)
      exact ⟨_, s', ho.trans ho', hall⟩
    · exact ih h (rest (fun _ hi => hi) hun)

/-! ## The outbox is emptied -/

/-- A row that is due, and that nobody has locked, is visited next, or another one is. -/
theorem nextDue_exists {now : ℕ} {t : Tables} {free : Key → Bool} {o : OutboxRow}
    (ho : o ∈ t.jobOutbox) (hdue : o.due now = true) (hfree : free (.out o.place) = true) :
    ∃ q, nextDue now t free = some q := by
  rw [← Option.ne_none_iff_exists']
  intro hnone
  rw [nextDue, List.argmin_eq_none] at hnone
  exact List.filter_eq_nil_iff.1 hnone o ho (by rw [hdue, hfree]; rfl)

/-- Once every job is over, the workers can delete a row of the outbox. -/
theorem Serving.deletes (h : Serving cfg w d s) (hall : ∀ id, ¬ s.Unfinished id) {p : Place}
    (hp : (s.mysql.store.out? p).isSome) : ∃ es s' q, Onward cfg s es s' ∧
      (s.mysql.store.out? q).isSome ∧ s'.mysql.store.out? q = none := by
  -- The lock is released, and the dispatcher comes to rest.
  obtain ⟨s₁, h₁, hfree⟩ := freed (h.grown.reached p.jobId) fun sid => h.inner_out
  obtain ⟨es₁, ho₁⟩ := h₁.onward
  cases hq : s₁.mysql.store.out? p with
  | none => exact ⟨es₁, s₁, p, ho₁, hp, hq⟩
  | some q =>
  have hserve₁ := h.onward ho₁
  obtain ⟨o, hd₁⟩ := hserve₁.dispatcher
  obtain ⟨s₂, h₂, -, hd₂⟩ := idled (hserve₁.grown.reached p.jobId) hd₁
  -- After this time, the row is due.
  obtain ⟨t, havail, hpub⟩ : ∃ t, q.availableAt ≤ t ∧ q.publishedAt.getD 0 + republishAfter < t :=
    ⟨q.availableAt + (q.publishedAt.getD 0 + republishAfter) + 1, by omega, by omega⟩
  have h₃ := h₂.trans (Rests.advance cfg s₂ t)
  generalize hs₃ : { s₂ with mysql := s₂.mysql.advance t } = s₃ at h₃
  obtain ⟨es₃, ho₃⟩ := h₃.onward
  have hserve₃ := hserve₁.onward ho₃
  have hlate : t ≤ s₃.mysql.clock := hs₃ ▸ Nat.le_add_left _ _
  have hd₃ : s₃.dispatchers d = some ⟨none, false, true⟩ := hs₃ ▸ hd₂
  have hdue : q.due s₃.mysql.clock = true :=
    due_later (havail.trans hlate) (Nat.lt_of_lt_of_le hpub hlate)
  have hfree₃ : s₃.mysql.locks (.out q.place) = none := by
    rw [Tables.out?_place hq]
    exact h₃.free hfree
  have hmem : q ∈ s₃.mysql.store.jobOutbox := by
    rw [h₃.store]
    exact Tables.out?_mem hq
  obtain ⟨q', hnext⟩ : ∃ q', nextDue s₃.mysql.clock s₃.mysql.store
      (fun k => s₃.mysql.locks k = none) = some q' :=
    nextDue_exists hmem hdue (decide_eq_true hfree₃)
  have hmem' := (nextDue_some hnext).1
  have hkept := (hserve₃.grown.reached q'.place.jobId).kept
  obtain ⟨job, hjob⟩ : ∃ job, s₃.mysql.store.job? q'.place.jobId = some job := by
    cases hjob : s₃.mysql.store.job? q'.place.jobId with
    | some job => exact ⟨job, rfl⟩
    | none =>
      have hnil : s₃.mysql.store.outboxOf q'.place.jobId = [] :=
        ((hkept.sound q'.place.jobId).absent hjob).2
      exact absurd ((s₃.mysql.store.mem_outboxOf).2 ⟨hmem', rfl⟩) (hnil ▸ List.not_mem_nil)
  obtain ⟨s₄, hv⟩ := visited cfg hd₃ (hkept.fresh (hserve₃.grown.reached p.jobId).paired) hnext hjob
  obtain ⟨es₄, ho₄⟩ := hv.onward
  have hgone : s₃.mysql.store.live q'.place = false := by
    have hover : job.terminal := by
      by_contra hlive
      exact hall _ (h.unfinished (ho₁.trans ho₃) ⟨job, hjob, hlive⟩)
    simp [Tables.live, hjob, hover]
  rcases hv.visit with ⟨hlive, -⟩ | ⟨-, -, hstore⟩
  · cases hgone.symm.trans hlive
  · refine ⟨_, s₄, q'.place, (ho₁.trans ho₃).trans ho₄, ?_, ?_⟩
    · refine (h.finishes (ho₁.trans ho₃) (hall q'.place.jobId)).2 _ rfl ?_
      exact Option.isSome_iff_exists.2 ⟨q', Tables.out?_of_mem hmem'⟩
    · rw [hstore, Tables.out?_deleteOutbox, if_pos rfl, Tables.out?_of_mem hmem']
      simp

/-- The workers can go on until every job is over, and the outbox is empty. -/
theorem Serving.empties (h : Serving cfg w d s) (hall : ∀ id, ¬ s.Unfinished id) :
    ∃ es s', Onward cfg s es s' ∧ ∀ p, s'.mysql.store.out? p = none := by
  -- By induction on the number of places that may be taken.
  obtain ⟨places, hplaces⟩ : ∃ places : List Place,
      ∀ p, (s.mysql.store.out? p).isSome → p ∈ places := by
    refine ⟨s.mysql.store.jobOutbox.map (·.place), fun p hp => ?_⟩
    obtain ⟨o, ho⟩ := Option.isSome_iff_exists.1 hp
    exact Tables.out?_place ho ▸ List.mem_map_of_mem (Tables.out?_mem ho)
  induction hn : places.length using Nat.strong_induction_on generalizing s places with
  | _ n ih =>
    by_cases hnone : ∀ p, s.mysql.store.out? p = none
    · exact ⟨[], s, .refl, hnone⟩
    obtain ⟨p, hp⟩ := not_forall.1 hnone
    obtain ⟨es, s₁, q, ho, hq, hgone⟩ := h.deletes hall (Option.ne_none_iff_isSome.1 hp)
    have hlt : (places.erase q).length < n := by
      have hpos := List.length_pos_of_mem (hplaces q hq)
      rw [List.length_erase_of_mem (hplaces q hq)]
      omega
    have hfewer : ∀ r, (s₁.mysql.store.out? r).isSome → r ∈ places.erase q := fun r hr => by
      refine (List.mem_erase_of_ne ?_).2 (hplaces r ((h.finishes ho (hall r.jobId)).2 r rfl hr))
      rintro rfl
      simp [hgone] at hr
    obtain ⟨es', s', ho', hend⟩ := ih _ hlt (h.onward ho)
      (fun id hun => hall id (h.unfinished ho hun)) _ hfewer rfl
    exact ⟨_, s', ho.trans ho', hend⟩

end Serving

/-- From every state of running workers that has a consumer group, and in which no request
    of the API is in the middle of a transaction on a job, the workers can go on by
    themselves until all the jobs are over and the outbox is empty. -/
theorem queue_empties {cfg : Config} {s₀ s : State} {es : List Event} (h₀ : Initial s₀)
    (hnone : s₀.mysql.store.jobs = []) (h : Run cfg s₀ es s) {w : WorkerId} {x : Worker}
    (hw : s.workers w = some x) (hup : x.up = true) (hgo : x.stopping = false) {d : ℕ}
    {y : Dispatcher} (hd : s.dispatchers d = some y) (hdup : y.up = true)
    (hdgo : y.stopping = false) (hgroup : s.stream.group.isSome)
    (hcalls : ∀ id c n, s.mysql.locks (.job id) ≠ some ⟨.call c, n⟩) :
    ∃ es' s', Onward cfg s es' s' ∧ (∀ r ∈ s.mysql.store.jobs, s'.Over r.id) ∧
      (∀ r ∈ s'.mysql.store.jobs, ∃ q ∈ s.mysql.store.jobs, q.id = r.id) ∧
      s'.mysql.store.jobOutbox = [] := by
  obtain ⟨o, stopping, up⟩ := y
  have hserve : Serving cfg w d s := by
    refine ⟨⟨s₀, es, h₀, hnone, h⟩, ⟨x, hw, hup, hgo⟩, ⟨o, by simp_all⟩, hgroup, ?_⟩
    rintro id ⟨party, n⟩ hlock c rfl
    exact hcalls id c n hlock
  obtain ⟨es₁, s₁, ho₁, hall⟩ := hserve.all_end
  have hserve₁ := hserve.onward ho₁
  obtain ⟨es₂, s₂, ho₂, hempty⟩ := hserve₁.empties hall
  have ho := ho₁.trans ho₂
  refine ⟨_, s₂, ho, fun r hr => ?_, fun r hr => ?_,
    List.eq_nil_iff_forall_not_mem.2 fun q hq => ?_⟩
  · obtain ⟨r', hr', -⟩ := (ho.run.life_on h h₀ r.id).stays (Tables.job?_of_mem hr)
    refine ⟨r', hr', ?_⟩
    by_contra hlive
    exact hall _ (hserve₁.unfinished ho₂ ⟨r', hr', hlive⟩)
  · have hr' := Tables.job?_of_mem hr
    cases hq : s.mysql.store.job? r.id with
    | some q => exact ⟨q, Tables.job?_mem hq, Tables.job?_id hq⟩
    | none =>
      have hsame : s₂.mysql.store.job? r.id = s.mysql.store.job? r.id :=
        (hserve.finishes ho fun ⟨q, hq', _⟩ => by simp [hq] at hq').1
      cases hr'.symm.trans (hsame.trans hq)
  · exact absurd (hempty q.place) (by simp [Tables.out?_of_mem hq])

/-- A worker and a dispatcher are started, and the first job waits. -/
def firstWaiting : State × List Event :=
  firstAnswered.1.play (.defaults id) [.startWorker "w", .startDispatcher 0]

theorem queue_empties_first : ∃ es s', Onward (.defaults id) firstWaiting.1 es s' ∧
    s'.Over firstJob ∧ s'.mysql.store.jobOutbox = [] := by
  have hrun : Run (.defaults id) .fresh _ firstWaiting.1 :=
    ((Run.play _ _ _ : Run (.defaults id) .fresh _ firstAsked).trans (Run.play _ _ _)).trans
      (Run.play _ _ _)
  obtain ⟨es, s', ho, hover, -, hempty⟩ := queue_empties .fresh rfl hrun (w := "w") rfl rfl rfl
    (d := 0) rfl rfl rfl (by decide) fun id c n hlock => by
      obtain ⟨y, hy⟩ := Option.isSome_iff_exists.1 ((hrun.kept .fresh).isolated.locked _ _ hlock)
      obtain ⟨x, hx, hwhy⟩ := hrun.tended .fresh _ y c hy rfl
      obtain ⟨x₁, x₂, r, hcalls⟩ : ∃ x₁ x₂ r, firstWaiting.1.calls = Function.update
          (Function.update (Function.update (fun _ => none) 0 x₁) 0 x₂) 0
            (some (.answered (.accepted r))) := ⟨_, _, _, rfl⟩
      rcases eq_or_ne c 0 with rfl | hne
      · rw [hcalls, Function.update_self] at hx
        obtain rfl := Option.some.inj hx
        simp [Call.session?] at hwhy
      · simp [hcalls, hne] at hx
  obtain ⟨r, hr, hid⟩ : ∃ r, r ∈ firstWaiting.1.mysql.store.jobs ∧ r.id = firstJob :=
    ⟨_, .head _, rfl⟩
  exact ⟨es, s', ho, hid ▸ hover r hr, hempty⟩

end ScaleQueue
