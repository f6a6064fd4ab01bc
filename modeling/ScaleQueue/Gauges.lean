import ScaleQueue.Audit
import ScaleQueue.Flow
import ScaleQueue.Metrics

/-!
# The metrics page

`GET /metrics` of a worker process (`metrics.Handler`) shows how many jobs there are in each
status, from MySQL, and the counters of the process. The two are kept by different code in
different places. They are both kept in balance by the log: a gauge is what has entered the
status, but for what has left it, and what the workers of the only process have completed
or declared dead is what its counters tell, but for the jobs that its claims gave up
(`page_balances`).
-/

namespace ScaleQueue

open Locking

/-! ## The handler -/

/-- A row of the query: how many jobs have the status, and how old the oldest is, in
    seconds. -/
structure Gauge where
  status : JobStatus
  jobs : ℕ
  oldest : ℤ

/-- `TIMESTAMPDIFF(SECOND, created_at, NOW())`. -/
def JobRow.age (now : ℕ) (r : JobRow) : ℤ := (seconds now : ℤ) - r.createdAt

/-- The row for a status. -/
def Tables.gauge (t : Tables) (now : ℕ) (status : JobStatus) : Gauge where
  status := status
  jobs := (t.jobs.filter (·.status = status)).length
  oldest := (((t.jobs.filter (·.status = status)).map (·.age now)).max?).getD 0

/-- The result of the query: a row for each status that a job has, in any order. -/
structure Tables.Groups (t : Tables) (now : ℕ) (gs : List Gauge) : Prop where
  nodup : (gs.map (·.status)).Nodup
  mem : ∀ g, g ∈ gs ↔ g = t.gauge now g.status ∧ g.jobs ≠ 0

/-- The result in the order of the statuses. -/
def Tables.gauges (t : Tables) (now : ℕ) : List Gauge :=
  ([.pending, .processing, .completed, .failed, .dead].map (t.gauge now)).filter (·.jobs ≠ 0)

theorem Tables.groups_gauges (t : Tables) (now : ℕ) : t.Groups now (t.gauges now) where
  nodup := (List.filter_sublist.map Gauge.status).nodup (by simp [Tables.gauge])
  mem g := by
    simp only [Tables.gauges, List.mem_filter, List.mem_map, decide_eq_true_eq]
    refine and_congr_left fun _ => ⟨?_, fun hg => ⟨g.status, ?_, hg.symm⟩⟩
    · rintro ⟨status, -, rfl⟩
      rfl
    · cases g.status <;> simp

/-- What `GET /metrics` replies. -/
inductive MetricsReply
  | error (status : ℕ) (text : String)
  | page (gauges : List Gauge) (m : Metrics)

/-- What `metrics.Handler` may reply. It does not ask why there is no further row: if the
    connection is lost, or the context is over, the page has the rows before. -/
inductive Scraped (t : Tables) (now : ℕ) (m : Metrics) : MetricsReply → Prop
  | unavailable : Scraped t now m (.error 503 "database unavailable")
  | page {gs read : List Gauge} (hgs : t.Groups now gs) (hread : read <+: gs) :
      Scraped t now m (.page read m)

/-! ## What has entered a status, and left it -/

/-- How often a job has entered the status, by the log. -/
def Tables.entered (t : Tables) (status : JobStatus) : ℕ :=
  t.jobAuditLogs.countP (·.toStatus = status)

/-- How often a job has left the status, by the log. -/
def Tables.left (t : Tables) (status : JobStatus) : ℕ :=
  t.jobAuditLogs.countP (·.fromStatus = some status)

section Balance

variable {cfg : Config} {s₀ s s' : State} {es : List Event} {now : ℕ} {t : Tables}

theorem Audited.leads {logs : List LogRow} {r : JobRow} (h : Audited logs r) :
    Flow.Leads LogRow.fromStatus LogRow.toStatus logs r.status where
  first := by
    obtain ⟨l, hl, hnone, -⟩ := h.first
    exact ⟨l, hl, hnone⟩
  chain := h.chain.imp fun _ _ h => h.1
  last := h.last

/-- Every entry is of a job, whose log it goes on with. -/
theorem Run.log_of_job (h : Run cfg s₀ es s) (h₀ : Initial s₀) {l : LogRow}
    (hl : l ∈ s.mysql.store.jobAuditLogs) :
    ∃ r, s.mysql.store.job? l.jobId = some r ∧ l ∈ s.mysql.store.logsOf l.jobId := by
  have hmem : l ∈ s.mysql.store.logsOf l.jobId := List.mem_filter.2 ⟨hl, by simp⟩
  cases hjob : s.mysql.store.job? l.jobId with
  | some r => exact ⟨r, rfl, hmem⟩
  | none =>
    have hnil : s.mysql.store.logsOf l.jobId = [] := (((h.kept h₀).sound l.jobId).absent hjob).1
    rw [hnil] at hmem
    cases hmem

/-- An entry is the creation of a job, or an allowed step of one. -/
theorem Run.log_allowed (h : Run cfg s₀ es s) (h₀ : Initial s₀)
    (hnone : s₀.mysql.store.jobs = []) {l : LogRow} (hl : l ∈ s.mysql.store.jobAuditLogs)
    {status : JobStatus} (hfrom : l.fromStatus = some status) : Allowed status l.toStatus := by
  obtain ⟨r, hr, hmem⟩ := h.log_of_job h₀ hl
  have haudit : Audited (s.mysql.store.logsOf l.jobId) r :=
    h.audited h₀ (by simp [Tables.job?, hnone]) r hr
  obtain ⟨l₀, hl₀, hstart, -⟩ := haudit.first
  cases hlogs : s.mysql.store.logsOf l.jobId with
  | nil => simp [hlogs] at hmem
  | cons l₁ ls =>
    obtain rfl : l₁ = l₀ := by simpa [hlogs] using hl₀
    rcases Flow.mem_chain (hlogs ▸ haudit.chain) (hlogs ▸ hmem) with rfl | ⟨l', hl', hallow⟩
    · cases hstart.symm.trans hfrom
    · obtain rfl := Option.some.inj (hfrom.symm.trans hl')
      exact hallow

theorem Run.log_keys (h : Run cfg s₀ es s) (h₀ : Initial s₀) :
    ∀ l ∈ s.mysql.store.jobAuditLogs, l.jobId ∈ s.mysql.store.jobs.map (·.id) := by
  intro l hl
  obtain ⟨r, hr, -⟩ := h.log_of_job h₀ hl
  exact List.mem_map.2 ⟨r, Tables.job?_mem hr, Tables.job?_id hr⟩

theorem Run.job_leads (h : Run cfg s₀ es s) (h₀ : Initial s₀)
    (hnone : s₀.mysql.store.jobs = []) : ∀ r ∈ s.mysql.store.jobs,
      Flow.Leads LogRow.fromStatus LogRow.toStatus (s.mysql.store.logsOf r.id) r.status :=
  fun r hr => (h.audited h₀ (by simp [Tables.job?, hnone]) r (Tables.job?_of_mem hr)).leads

/-- The number of jobs in a status is in balance with the log. -/
theorem Run.balance (h : Run cfg s₀ es s) (h₀ : Initial s₀) (hnone : s₀.mysql.store.jobs = [])
    (status : JobStatus) :
    s.mysql.store.jobs.countP (·.status = status) + s.mysql.store.left status =
      s.mysql.store.entered status :=
  Flow.balance s.mysql.store.primary (h.log_keys h₀) (h.job_leads h₀ hnone) status

/-- There are as many jobs as were created. -/
theorem Run.created_eq (h : Run cfg s₀ es s) (h₀ : Initial s₀)
    (hnone : s₀.mysql.store.jobs = []) :
    s.mysql.store.jobs.length = s.mysql.store.jobAuditLogs.countP (·.fromStatus = none) :=
  Flow.length_eq s.mysql.store.primary (h.log_keys h₀) (h.job_leads h₀ hnone)

/-- No job leaves `COMPLETED`, and a job leaves `DEAD` only to be requeued. -/
theorem Run.left_eq (h : Run cfg s₀ es s) (h₀ : Initial s₀) (hnone : s₀.mysql.store.jobs = []) :
    s.mysql.store.left .completed = 0 ∧
      s.mysql.store.left .dead = s.mysql.store.jobAuditLogs.countP (·.requeues) := by
  refine ⟨List.countP_eq_zero.2 fun l hl => ?_, List.countP_congr fun l hl => ?_⟩
  · rw [decide_eq_true_eq]
    intro hfrom
    cases h.log_allowed h₀ hnone hl hfrom
  · simp only [LogRow.requeues, decide_eq_true_eq]
    refine ⟨fun hfrom => ⟨hfrom, ?_⟩, And.left⟩
    have hallow := h.log_allowed h₀ hnone hl hfrom
    generalize l.toStatus = status at hallow
    cases hallow
    rfl

end Balance

/-! ## Who has written the log -/

section Workers

variable {cfg : Config} {s₀ s s' : State} {es : List Event} {a : Action} {w : WorkerId}

theorem State.setWorker_staffed {v : WorkerId} {x : Worker} (h : (s.workers w).isSome) :
    ((s.setWorker v x).workers w).isSome := by
  rcases eq_or_ne w v with rfl | hne
  · simp [State.setWorker]
  · simpa [State.setWorker, hne] using h

/-- Workers stay. -/
theorem Stepped.staffed (hs : Stepped cfg s a s' es) (h : (s.workers w).isSome) :
    (s'.workers w).isSome := by
  have delivered {t : State} {sid : Sid} {b : Option Answer} {es : List Event}
      (hd : Delivered cfg t sid b s' es) (ht : (t.workers w).isSome) : (s'.workers w).isSome := by
    cases hd with
    | worker => exact State.setWorker_staffed ht
    | _ => exact ht
  cases hs with
  | close _ hd => exact delivered hd h
  | giveUp _ hd =>
    refine delivered hd ?_
    unfold State.forsake
    exact h
  | startWorker => exact State.setWorker_staffed h
  | worker => exact State.setWorker_staffed h
  | _ => exact h

theorem State.setWorker_unstaffed {v : WorkerId} {x : Worker} (h : s.workers w = none)
    (hv : w ≠ v) : (s.setWorker v x).workers w = none := by
  simpa [State.setWorker, hv] using h

/-- Workers come by being started. -/
theorem Stepped.unstaffed (hs : Stepped cfg s a s' es) (h : s.workers w = none)
    (ha : a ≠ .startWorker w) : s'.workers w = none := by
  have other {t : State} (ht : t.workers w = none) {v : WorkerId} {x : Worker}
      (hv : t.workers v = some x) : w ≠ v := by
    rintro rfl
    cases ht.symm.trans hv
  have delivered {t : State} {sid : Sid} {b : Option Answer} {es : List Event}
      (hd : Delivered cfg t sid b s' es) (ht : t.workers w = none) : s'.workers w = none := by
    cases hd with
    | worker _ hv => exact State.setWorker_unstaffed ht (other ht hv)
    | _ => exact ht
  cases hs with
  | close _ hd => exact delivered hd h
  | giveUp _ hd =>
    refine delivered hd ?_
    unfold State.forsake
    exact h
  | startWorker => exact State.setWorker_unstaffed h fun hv => ha (by rw [hv])
  | worker hv => exact State.setWorker_unstaffed h (other h hv)
  | _ => exact h

/-- The worker that is started. -/
def Action.started? : Action → Option WorkerId
  | .startWorker w => some w
  | _ => none

theorem State.play_unstaffed (acts : List Action) (h : s.workers w = none)
    (hacts : w ∉ acts.filterMap Action.started?) : (s.play cfg acts).1.workers w = none := by
  induction acts generalizing s with
  | nil => exact h
  | cons a acts ih =>
    have ha : a ≠ .startWorker w := by
      rintro rfl
      exact hacts (by simp [Action.started?])
    have hrest : w ∉ acts.filterMap Action.started? := fun hw =>
      hacts ((List.sublist_cons_self a acts).filterMap _ |>.subset hw)
    unfold State.play
    cases hs : s.step cfg a with
    | none => exact ih h hrest
    | some x => exact ih ((step_cases hs).unstaffed h ha) hrest

/-- What a commit adds to the log is by its worker, or counts for nobody. -/
theorem Change.logged {lease : ℕ} {id : JobId} {lo hi : Env} {op : Op} {b : Answer}
    {v v' : JobView} (hc : Change lease id lo hi op b v v') {l : LogRow} (hl : l ∈ v'.logs) :
    l ∈ v.logs ∨ l.counter? = none ∨ ∃ w, op.worker? = some w ∧ l.workerId = some w := by
  cases hc with
  | renewed | published | dropped => exact .inl hl
  | created =>
    rcases List.mem_append.1 hl with hl | hl
    · exact .inl hl
    · obtain rfl := List.mem_singleton.1 hl
      exact .inr (.inl rfl)
  | @requeued r _ _ _ _ _ _ _ _ hstatus =>
    rcases List.mem_append.1 hl with hl | hl
    · exact .inl hl
    · obtain rfl := List.mem_singleton.1 hl
      rcases hstatus with hst | hst <;> simp [LogRow.counter?, hst]
  | _ =>
    rcases List.mem_append.1 hl with hl | hl
    · exact .inl hl
    · obtain rfl := List.mem_singleton.1 hl
      exact .inr (.inr ⟨_, rfl, rfl⟩)

/-- The worker of a session is there. -/
theorem Run.manned (h : Run cfg s₀ es s) (h₀ : Initial s₀) {sid : Sid} {y : Conn}
    (hy : s.mysql.sessions sid = some y) (hop : y.op.worker? = some w) : (s.workers w).isSome := by
  induction h generalizing y with
  | refl => simp [h₀.sessions] at hy
  | step h hs ih =>
    have hst := step_cases hs
    cases hst.continues (h.paired h₀) hy with
    | stays hy' hop' => exact hst.staffed (ih hy' (hop' ▸ hop))
    | runs _ hy' hop' => exact hst.staffed (ih hy' (hop' ▸ hop))
    | answered hy' hop' => exact hst.staffed (ih hy' (hop' ▸ hop))
    | opened _ _ _ hby =>
      generalize sid.party = party at hby
      generalize y.op = op at hop hby
      cases hby with
      | claim he =>
        obtain rfl := Option.some.inj hop
        obtain ⟨x', hx'⟩ := hst.present he rfl
        exact Option.isSome_iff_exists.2 ⟨x', hx'⟩
      | @finish v x _ j _ _ _ _ _ hw hx =>
        obtain rfl := Option.some.inj hop
        rw [(h.fenced h₀).owner v x j hw (by rw [hx]; rfl)]
        exact hst.staffed (by rw [hw]; rfl)
      | _ => cases hop

/-- What counts was logged by a worker that is there. -/
theorem Run.logged (h : Run cfg s₀ es s) (h₀ : Initial s₀)
    (hlogs : s₀.mysql.store.jobAuditLogs = []) {l : LogRow}
    (hl : l ∈ s.mysql.store.jobAuditLogs) :
    l.counter? = none ∨ ∃ w, l.workerId = some w ∧ (s.workers w).isSome := by
  induction h with
  | refl => simp [hlogs] at hl
  | @step es es' s s' a h hs ih =>
    have hst := step_cases hs
    have before (hl : l ∈ s.mysql.store.jobAuditLogs) :
        l.counter? = none ∨ ∃ w, l.workerId = some w ∧ (s'.workers w).isSome :=
      (ih hl).imp_right fun ⟨w, hw, hsome⟩ => ⟨w, hw, hst.staffed hsome⟩
    have hview : l ∈ (s'.mysql.store.view l.jobId).logs := List.mem_filter.2 ⟨hl, by simp⟩
    rcases hst.view (h.kept h₀) l.jobId with
      ⟨hsame, -⟩ | ⟨sid, how, db, op, b, _, _, -, -, hchange, -, -, y, hy, hop, -⟩
    · rw [hsame] at hview
      exact before (List.mem_filter.1 hview).1
    · rcases hchange.logged hview with hold | hnone | ⟨w, hw, hid⟩
      · exact before (List.mem_filter.1 hold).1
      · exact .inl hnone
      · exact .inr ⟨w, hid, hst.staffed (h.manned h₀ hy (hop ▸ hw))⟩

/-- If the workers are all of one process, all that counts is by them. -/
theorem Run.recorded_eq (h : Run cfg s₀ es s) (h₀ : Initial s₀)
    (hlogs : s₀.mysql.store.jobAuditLogs = []) {P : Finset WorkerId}
    (hP : ∀ w ∉ P, s.workers w = none) (c : Counter) :
    recorded P c s.mysql.store = s.mysql.store.jobAuditLogs.countP (·.counter? = some c) := by
  refine List.countP_congr fun l hl => ?_
  simp only [decide_eq_true_eq, and_iff_left_iff_imp]
  intro hcount
  obtain hnone | ⟨w, hw, hsome⟩ := h.logged h₀ hlogs hl
  · cases hnone.symm.trans hcount
  · have hmem : w ∈ P := by
      by_contra hnot
      simp [hP w hnot] at hsome
    simpa [hw] using hmem

end Workers

/-! ## The page -/

section Page

variable {cfg : Config} {P : Finset WorkerId} {s₀ s s' : State} {es : List Event} {t : Tables}
  {gs : List Gauge} {now : ℕ}

/-- Nothing is ever taken out of the log. -/
theorem Run.log_prefix (h : Run cfg s es s') :
    s.mysql.store.jobAuditLogs <+: s'.mysql.store.jobAuditLogs := by
  induction h with
  | refl => exact List.prefix_rfl
  | @step es es' s₁ s₂ a h hs ih =>
    have hst := step_cases hs
    refine ih.trans ?_
    rcases hst.closings_cases with hnil | ⟨sid, how, db, k, rfl, hc, -⟩
    · rw [hst.steps.store_eq (by simp [hnil])]
    · obtain ⟨_, _, hc', -, hstore⟩ := hst.closing
      obtain ⟨rfl, -⟩ := Prod.mk.inj (Option.some.inj (hc.symm.trans hc'))
      rw [hstore]
      obtain ⟨y, -, ⟨_, -, -, rfl⟩ | ⟨_, -, -, rfl⟩ | ⟨-, rfl⟩⟩ := Server.close_cases hc
      · exact ⟨_, (logs_applyAll s₁.mysql.store y.writes).symm⟩
      · exact List.prefix_rfl
      · exact List.prefix_rfl

theorem Run.entered_le (h : Run cfg s es s') (status : JobStatus) :
    s.mysql.store.entered status ≤ s'.mysql.store.entered status :=
  h.log_prefix.sublist.countP_le

theorem LogRow.counter?_completed (l : LogRow) :
    l.counter? = some .completed ↔ l.toStatus = .completed := by
  unfold LogRow.counter?
  split <;> simp_all

theorem LogRow.counter?_dead (l : LogRow) : l.counter? = some .dead ↔ l.toStatus = .dead := by
  unfold LogRow.counter?
  split <;> simp_all

/-- The rows of the query are the jobs, by their status. -/
theorem Tables.Groups.sum (h : t.Groups now gs) : (gs.map (·.jobs)).sum = t.jobs.length := by
  have hkeys : ∀ r ∈ t.jobs, r.status ∈ gs.map (·.status) := by
    intro r hr
    refine List.mem_map.2 ⟨t.gauge now r.status, (h.mem _).2 ⟨rfl, ?_⟩, rfl⟩
    exact (List.length_pos_of_mem (List.mem_filter.2 ⟨hr, by simp⟩)).ne'
  have hsum := Flow.countP_eq_sum h.nodup hkeys fun _ => true
  rw [List.countP_true] at hsum
  rw [hsum]
  refine congrArg List.sum (List.map_congr_left fun g hg => ?_)
  rw [((h.mem g).1 hg).1]
  rfl

/-- What the gauges of a page tell of the tables that are queried. -/
structure Balanced (t : Tables) (now : ℕ) (gauges : List Gauge) : Prop where
  gauge : ∀ g ∈ gauges, g.jobs + t.left g.status = t.entered g.status
  all : t.Groups now gauges →
    (gauges.map (·.jobs)).sum = t.jobAuditLogs.countP (·.fromStatus = none)

/-- The gauges, for which the tables `t` are queried first, and the counters, which are read
    when the tables are `t'` and claims have given up `n` jobs, tell the same. -/
structure Concurs (t t' : Tables) (n : ℕ) (gauges : List Gauge) (m : Metrics) : Prop where
  inFlight : m.inFlight = 0
  completed : ∀ g ∈ gauges, g.status = .completed →
    g.jobs + (t'.entered .completed - t.entered .completed) = m.total .completed
  dead : ∀ g ∈ gauges, g.status = .dead →
    g.jobs + t.jobAuditLogs.countP (·.requeues) + (t'.entered .dead - t.entered .dead) =
      m.total .dead + n

theorem Scraped.balanced {m shown : Metrics} (h : Run cfg s₀ es s) (h₀ : Initial s₀)
    (hnone : s₀.mysql.store.jobs = []) (hpage : Scraped s.mysql.store now m (.page gs shown)) :
    Balanced s.mysql.store now gs := by
  cases hpage with
  | page hgs hread =>
  refine ⟨fun g hg => ?_, fun hall => ?_⟩
  · rw [((hgs.mem g).1 (hread.subset hg)).1, ← h.balance h₀ hnone, List.countP_eq_length_filter]
    rfl
  · rw [hall.sum, h.created_eq h₀ hnone]

/-- What the log holds is what the counters and the claims that gave up tell. -/
theorem Metered.logged {m : Metrics} {n : ℕ} (hm : Metered cfg P s₀ es s m n) (h₀ : Initial s₀)
    (hnone : s₀.mysql.store.jobs = []) (hsole : ∀ w ∉ P, s.workers w = none) :
    s.mysql.store.entered .completed = m.total .completed ∧
      s.mysql.store.entered .dead = m.total .dead + n := by
  have hlogs : s₀.mysql.store.jobAuditLogs = [] := by
    refine List.eq_nil_iff_forall_not_mem.2 fun l hl => ?_
    obtain ⟨r, hr, -⟩ := (@Run.refl cfg s₀).log_of_job h₀ hl
    simp [Tables.job?, hnone] at hr
  have htotal (c : Counter) : s.mysql.store.jobAuditLogs.countP (·.counter? = some c) =
      m.total c + if .dead = c then n else 0 := by
    rw [← hm.run.recorded_eq h₀ hlogs hsole, (hm.counted h₀).total]
    simp [recorded, hlogs]
  have hcompleted := htotal .completed
  have hdead := htotal .dead
  simp only [LogRow.counter?_completed, reduceCtorEq, if_false, Nat.add_zero] at hcompleted
  simp only [LogRow.counter?_dead, if_true] at hdead
  exact ⟨hcompleted, hdead⟩

end Page

/-- In every run, the gauges of a page are in balance with the log. If the workers are all of
    one process, which does not crash and loses no result of a commit, and no `ProcessJob`
    is in progress when the counters are read, they agree with the gauges. -/
theorem page_balances {cfg : Config} {s₀ s : State} {es : List Event} {m shown : Metrics}
    {now : ℕ} {gauges : List Gauge} (h₀ : Initial s₀) (hnone : s₀.mysql.store.jobs = [])
    (h : Run cfg s₀ es s) (hpage : Scraped s.mysql.store now m (.page gauges shown)) :
    Balanced s.mysql.store now gauges ∧
    ∀ (P : Finset WorkerId) (s' : State) (es' es'' : List Event) (n : ℕ), Run cfg s es' s' →
      Metered cfg P s₀ es'' s' m n → (∀ w ∉ P, s'.workers w = none) → s'.Quiet P →
        Concurs s.mysql.store s'.mysql.store n gauges shown := by
  have hbalanced := hpage.balanced h h₀ hnone
  refine ⟨hbalanced, fun P s' es' es'' n hon hm hsole hquiet => ?_⟩
  cases hpage with
  | page =>
  obtain ⟨hcompleted, hdead⟩ := h.left_eq h₀ hnone
  obtain ⟨htotal, hgiven⟩ := hm.logged h₀ hnone hsole
  refine ⟨?_, fun g hg hst => ?_, fun g hg hst => ?_⟩
  · exact (hm.counted h₀).inFlight_eq hquiet
  · have hbal := hbalanced.gauge g hg
    have hle := hon.entered_le .completed
    rw [hst, hcompleted] at hbal
    omega
  · have hbal := hbalanced.gauge g hg
    have hle := hon.entered_le .dead
    rw [hst, hdead] at hbal
    omega

/-- The first job is completed: the page has one gauge, and its counters agree. -/
theorem page_balances_first :
    let s := (State.after (firstClaim ++ finishing "w" 4 0 .ok)).1
    let m := (State.fresh.meter (.defaults id) {"w"} {} 0
      (firstClaim ++ finishing "w" 4 0 .ok)).1
    ((s.mysql.store.gauges 0).map fun g => (g.status, g.jobs)) = [(.completed, 1)] ∧
      Balanced s.mysql.store 0 (s.mysql.store.gauges 0) ∧
      Concurs s.mysql.store s.mysql.store 0 (s.mysql.store.gauges 0) m := by
  intro s m
  have hsole : ∀ w ∉ ({"w"} : Finset WorkerId), s.workers w = none := fun w hw => by
    refine State.play_unstaffed _ rfl fun hmem => hw ?_
    rwa [show (firstClaim ++ finishing "w" 4 0 .ok).filterMap Action.started? = ["w"] from rfl,
      List.mem_singleton, ← Finset.mem_singleton] at hmem
  obtain ⟨hbalanced, hagrees⟩ := page_balances .fresh rfl (Run.play (.defaults id) .fresh _)
    (.page (m := m) (Tables.groups_gauges s.mysql.store 0) List.prefix_rfl)
  exact ⟨by decide, hbalanced, hagrees {"w"} s [] _ 0 .refl
    (Metered.start.play (firstClaim ++ finishing "w" 4 0 .ok) (by decide)) hsole (by decide)⟩

end ScaleQueue
