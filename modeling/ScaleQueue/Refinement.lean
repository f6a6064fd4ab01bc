import ScaleQueue.Delays
import ScaleQueue.Progress
import ScaleQueue.Queue
import ScaleQueue.Rows

/-!
# The system is a queue

Behind the tables, the transactions and the messages there is a queue of leased jobs: the
row of a job is its ticket (`JobRow.ticket`), and each commit is a deed (`deed?`) or does
nothing to the queue. Whatever the system does, the queue could have done
(`system_simulated`); the queue knows the attempt that an outcome is for, which `Finish`
does not ask for.

A row is as new as its ticket, so it never comes back to where it has been
(`rows_never_return`).
-/

namespace ScaleQueue

open Locking Simulation

/-! ## Rows and commits as the queue has them -/

/-- The row of a job, without what only the tables need. -/
def JobRow.stage (r : JobRow) : Queue.Stage WorkerId :=
  match r.status with
  | .pending => .waiting r.nextAttemptAt
  | .processing => .leased (r.leaseOwner.getD "") (r.leaseUntil.getD 0)
  | .completed => .completed
  | .failed => .dead
  | .dead => .dead

/-- The row, as a ticket of the queue. -/
def JobRow.ticket (r : JobRow) : Queue.Ticket WorkerId :=
  ⟨r.maxRetries + 1, r.generation, r.attemptCount, r.stage⟩

/-- The jobs there are. -/
def State.jobs (s : State) (id : JobId) : Bool := (s.mysql.store.job? id).isSome

/-- The queue of the jobs that are not among the `old` ones. -/
def State.queue (old : JobId → Bool) (s : State) : Queue JobId WorkerId where
  tickets id := if old id then none else (s.mysql.store.job? id).map JobRow.ticket
  clock := s.mysql.clock

/-- What the worker holds that claimed the job. -/
def Job.grant (j : Job) : Queue.Grant WorkerId := ⟨j.leaseOwner, j.generation, j.attemptCount⟩

/-- The status that `Finish` is called with, as the end of a lease. -/
def Ending.verdict : Ending → Queue.Verdict
  | .completed => .completed
  | .pending => .retried
  | .dead => .dead

/-- What a commit is to the queue. -/
def deed? : Op → Answer → Option (JobId × Queue.Deed WorkerId)
  | .claim id _ _, .job j => some (id, .lease j.grant)
  | .claim id _ _, .noJob .exhausted => some (id, .exhaust)
  | .renew j, .done => some (j.id, .extend j.leaseOwner j.generation)
  | .finish j e _ _, .done => some (j.id, .finish j.grant e.verdict)
  | .createJob j, .done => some (j.id, .submit (j.input.maxRetries + 1))
  | .requeueJob id, .done => some (id, .replay)
  | _, _ => none

/-- What a session that was closed has done to the queue. -/
def closedDeed? : Sid × Closed Answer Op → Option (JobId × Queue.Deed WorkerId)
  | (_, .committed op a) => deed? op a
  | _ => none

/-- What the events are to the queue. -/
def deeds (old : JobId → Bool) (es : List Event) : List (JobId × Queue.Deed WorkerId) :=
  ((closings es).filterMap closedDeed?).filter fun x => !old x.1

/-- Leases are as long as configured, and retries wait as `ExponentialDelay` draws. -/
def policy (cfg : Config) : Queue.Policy where
  lease := cfg.lease
  Backoff n d := min (2 ^ (n - 1)) 150 * 1000000 ≤ d ∧ d ≤ min (2 ^ n) 300 * 1000000

/-- The system as a machine that starts with the `old` jobs, and of which the deeds on
    others are seen. -/
def system (cfg : Config) (old : JobId → Bool) : Machine State (JobId × Queue.Deed WorkerId) where
  Start s := Initial s ∧ s.jobs = old
  Step s o s' := ∃ a es, s.step cfg a = some (s', es) ∧ o = deeds old es

theorem deeds_append (old : JobId → Bool) (es es' : List Event) :
    deeds old (es ++ es') = deeds old es ++ deeds old es' := by
  rw [deeds, closings_append, List.filterMap_append, List.filter_append]
  rfl

theorem mem_deeds {old : JobId → Bool} {es : List Event} {id : JobId} {d : Queue.Deed WorkerId} :
    (id, d) ∈ deeds old es ↔ old id = false ∧ ∃ sid op a,
      .closed sid (.committed op a) ∈ es ∧ deed? op a = some (id, d) := by
  simp only [deeds, List.mem_filter, List.mem_filterMap, Bool.not_eq_true', Prod.exists]
  constructor
  · rintro ⟨⟨sid, c, hc, hd⟩, hold⟩
    cases c with
    | committed op a => exact ⟨hold, sid, op, a, mem_closings.1 hc, hd⟩
    | _ => cases hd
  · rintro ⟨hold, sid, op, a, hc, hd⟩
    exact ⟨⟨sid, _, mem_closings.2 hc, hd⟩, hold⟩

/-- A deed is on the job that its commit is about. -/
theorem about_of_deed {op : Op} {a : Answer} {id : JobId} {d : Queue.Deed WorkerId}
    (h : deed? op a = some (id, d)) : about op a = some id := by
  unfold deed? at h
  split at h
  all_goals first
    | (obtain ⟨rfl, -⟩ := Prod.mk.inj (Option.some.inj h); rfl)
    | cases h

section Rows

variable {r : JobRow} {j : Job} {t : ℕ}

/-- A row that can be claimed can be leased. -/
theorem JobRow.Claimable.opened {g t' : ℕ} (h : r.Claimable g t) (hfail : r.status ≠ .failed)
    (hcoh : Coherent r t') : r.stage.Open t := by
  have hearly : r.nextAttemptAt ≤ t := by simpa [JobRow.early] using h.not_early
  unfold JobRow.stage
  cases hst : r.status with
  | pending => exact hearly
  | processing =>
    obtain ⟨u, hu⟩ := Option.isSome_iff_exists.1 (hcoh.lease.2 hst)
    have hover : ¬ t < u := by
      have := h.inactive
      simpa [hst, JobRow.active, hu] using this
    show r.leaseUntil.getD 0 ≤ t
    rw [hu]
    exact Nat.le_of_not_lt hover
  | completed => exact absurd (.inl hst) h.live
  | failed => exact absurd hst hfail
  | dead => exact absurd (.inr hst) h.live

/-- A row that its owner can write to is leased. -/
theorem JobRow.stage_of_owned (h : r.ownedBy j t = true) :
    ∃ u, r.stage = .leased j.leaseOwner u ∧ t < u := by
  obtain ⟨-, hst, hown, u, hu, hlt⟩ := ownedBy_iff.1 h
  exact ⟨u, by simp [JobRow.stage, hst, hown, hu], hlt⟩

/-- The grant of the attempt that a row is in. -/
theorem JobRow.In.grant (h : r.In j) :
    j.grant = ⟨j.leaseOwner, r.ticket.generation, r.ticket.attempts⟩ := by
  simp only [Job.grant, JobRow.ticket, h.generation, h.attemptCount]

theorem ticket_finish (e : Ending) (message : String) (delay : ℕ) :
    (r.finish e.status message delay t).ticket = { r.ticket with
      stage := match e with
        | .completed => .completed
        | .pending => .waiting (t + delay)
        | .dead => .dead } := by
  cases e <;> rfl

end Rows
/-! ## Commits are deeds -/

/-- What the queue relies on in a row. -/
structure JobRow.Regular (t : ℕ) (r : JobRow) : Prop where
  not_failed : r.status ≠ .failed
  coherent : Coherent r t
  attempts_lt : r.status = .pending → r.attemptCount < r.maxRetries + 1
  attempts_le : r.attemptCount ≤ r.maxRetries + 1

section Commits

variable {cfg : Config} {s₀ s s' : State} {es es' : List Event} {id : JobId}

theorem Run.regular (h : Run cfg s₀ es s) (h₀ : Initial s₀)
    (hnew : s₀.mysql.store.job? id = none) {r : JobRow} (hr : s.mysql.store.job? id = some r) :
    r.Regular s.mysql.clock := by
  exact ⟨(State.Reached.bounded ⟨s₀, es, h₀, hnew, h⟩ hr).1, h.coherent h₀ hnew hr,
    (h.budgeted h₀ hnew r hr).pending, (h.tally h₀ hnew hr).attempts_le⟩

/-- A retry has a wait that the policy allows, and attempts left. -/
theorem Run.retries (h : Run cfg s₀ es s) (h₀ : Initial s₀) {sid : Sid} {how : Closing} {db : MySQL}
    {j : Job} {message : String} {delay : ℕ} {a : Answer}
    (hc : s.mysql.close sid how = some (db, .committed (.finish j .pending message delay) a))
    {r : JobRow} (hin : r.In j) :
    r.attemptCount < r.maxRetries + 1 ∧ (policy cfg).Backoff r.attemptCount delay := by
  obtain ⟨w, n, result, jitter, -, hout⟩ := h.decided h₀ hc
  obtain ⟨-, h₁, h₂, heq, -⟩ := h.finish h₀ hc
  have hcount : j.attemptCount = j.retryCount + 1 := by
    refine (h.life h₀ j.id).retryCount j ?_
    rw [heq, claims_append, claims_cons]
    exact List.mem_append_right _ (List.mem_append_left _ (Option.mem_toList.2 rfl))
  obtain ⟨m, rfl, rfl⟩ : ∃ m, result = .failed m false ∧
      delay = exponentialDelay j.retryCount jitter / 1000 := by
    cases result with
    | ok => simp [outcome] at hout
    | failed m permanent =>
      simp only [outcome, Option.some.injEq, Prod.mk.injEq, ite_eq_right_iff, reduceCtorEq,
        imp_false, not_or, Bool.not_eq_true] at hout
      exact ⟨m, by rw [hout.1.1], hout.2.2.symm⟩
    | panicked => simp [outcome] at hout
  refine ⟨?_, ?_⟩
  · rw [hin.attemptCount, hin.maxRetries]
    exact outcome_pending hout
  · have hretry : j.retryCount = r.attemptCount - 1 := by rw [hin.attemptCount, hcount]; rfl
    rw [hretry]
    exact exponentialDelay_bounds (by rw [hin.attemptCount, hcount]; omega) jitter

/-- A commit on a job is a deed of the queue, or changes nothing in it. -/
theorem Run.takes (h : Run cfg s₀ es s) (h₀ : Initial s₀) (hnew : s₀.mysql.store.job? id = none)
    {sid : Sid} {how : Closing} {db : MySQL} {op : Op} {a : Answer} {lo hi : Env}
    (hc : s.mysql.close sid how = some (db, .committed op a))
    (hchange : Change cfg.lease id lo hi op a (s.mysql.store.view id) (db.store.view id))
    (hhi : hi.now ≤ s.mysql.clock) :
    (deed? op a = none ∧ (db.store.job? id).map JobRow.ticket =
        (s.mysql.store.job? id).map JobRow.ticket) ∨
      ∃ d t, deed? op a = some (id, d) ∧ t ≤ s.mysql.clock ∧
        d.Takes (policy cfg) t ((s.mysql.store.job? id).map JobRow.ticket)
          ((db.store.job? id).map JobRow.ticket) := by
  have hreg {r : JobRow} (hr : (s.mysql.store.view id).row = some r) : r.Regular s.mysql.clock :=
    h.regular h₀ hnew hr
  -- The row of a job that is finished is in the attempt that its worker has in mind.
  have hattempt {j : Job} {e : Ending} {message : String} {delay : ℕ} {r : JobRow}
      (hop : op = .finish j e message delay) (hid : j.id = id)
      (hr : (s.mysql.store.view id).row = some r) : r.In j := by
    subst hop hid
    obtain ⟨q, hq, -, hin⟩ := (h.finish h₀ hc).1
    obtain rfl := Option.some.inj (hr.symm.trans hq)
    exact hin
  show deed? op a = none ∧ (db.store.view id).row.map JobRow.ticket =
      (s.mysql.store.view id).row.map JobRow.ticket ∨
    ∃ d t, deed? op a = some (id, d) ∧ t ≤ s.mysql.clock ∧
      d.Takes (policy cfg) t ((s.mysql.store.view id).row.map JobRow.ticket)
        ((db.store.view id).row.map JobRow.ticket)
  generalize s.mysql.store.view id = v at hchange hreg hattempt ⊢
  generalize db.store.view id = v' at hchange ⊢
  cases hchange with
  | @claimed g owner r _ _ t₁ t₂ t₃ _ _ hr hbudget hmax hlo ht ht' =>
    refine .inr ⟨_, t₂, rfl, by omega, ?_⟩
    exact Queue.Deed.Takes.lease (x := r.ticket) (w := owner)
      ((hr.opened (hreg rfl).not_failed (hreg rfl).coherent).wait ht) hbudget
  | @exhausted g owner r _ _ t₁ t₂ t₃ _ _ hr hbudget hlo ht ht' =>
    refine .inr ⟨.exhaust, t₂, rfl, by omega, ?_⟩
    have hopen := hr.opened (hreg rfl).not_failed (hreg rfl).coherent
    have hle := (hreg rfl).attempts_le
    -- A job that waits has attempts left.
    cases hst : r.status with
    | pending => exact absurd ((hreg rfl).attempts_lt hst) (Nat.not_lt.2 hbudget)
    | processing =>
      have hstage : r.stage = .leased (r.leaseOwner.getD "") (r.leaseUntil.getD 0) := by
        rw [JobRow.stage, hst]
      rw [hstage] at hopen
      exact Queue.Deed.Takes.exhaust (x := r.ticket) hstage (Nat.le_trans hopen ht)
        (Nat.le_antisymm hle hbudget)
    | completed => exact absurd (.inl hst) hr.live
    | failed => exact absurd hst (hreg rfl).not_failed
    | dead => exact absurd (.inr hst) hr.live
  | @renewed j r _ _ t hid hj hown =>
    obtain ⟨u, hstage, hlt⟩ := JobRow.stage_of_owned hown
    obtain ⟨hgen, hst, howner, -⟩ := ownedBy_iff.1 hown
    refine .inr ⟨.extend j.leaseOwner r.generation, t, by rw [deed?, hj, hgen], by omega, ?_⟩
    have htakes := Queue.Deed.Takes.extend (p := policy cfg) (x := r.ticket) hstage hlt
    have hticket : (r.renew cfg.lease t).ticket =
        { r.ticket with stage := .leased j.leaseOwner (t + cfg.lease) } := by
      simp [JobRow.ticket, JobRow.stage, JobRow.renew, hst, howner]
    rw [Option.map_some, Option.map_some, hticket]
    exact htakes
  | @finished j e message delay r _ _ t₁ t₂ _ hid hj he hown =>
    obtain ⟨u, hstage, hlt⟩ := JobRow.stage_of_owned hown
    have hgrant := (hattempt rfl hj rfl).grant
    refine .inr ⟨_, t₁, by rw [deed?, hj], by omega, ?_⟩
    rw [Option.map_some, Option.map_some, ticket_finish, hgrant]
    cases e with
    | completed => exact .completed hstage hlt
    | pending => exact absurd rfl he
    | dead => exact .dead hstage hlt
  | @retried j message delay r _ _ t₁ t₂ _ _ hid hj hown =>
    obtain ⟨u, hstage, hlt⟩ := JobRow.stage_of_owned hown
    have hin := hattempt rfl hj rfl
    obtain ⟨hleft, hwait⟩ := h.retries h₀ hc hin
    refine .inr ⟨_, t₁, by rw [deed?, hj], by omega, ?_⟩
    rw [Option.map_some, Option.map_some, hin.grant]
    exact (ticket_finish .pending message delay ▸ .retried hstage hlt hleft hwait)
  | published => exact .inl ⟨rfl, rfl⟩
  | dropped => exact .inl ⟨rfl, rfl⟩
  | @created j _ _ t₁ _ _ _ _ hj =>
    refine .inr ⟨_, t₁, by rw [deed?, hj], by omega, ?_⟩
    exact .submit (Nat.succ_le_succ (Nat.zero_le j.input.maxRetries))
  | @requeued r _ _ t₁ _ _ _ _ hid hst =>
    refine .inr ⟨.replay, t₁, rfl, by omega, ?_⟩
    refine Queue.Deed.Takes.replay (x := r.ticket) ?_
    show r.stage = .dead
    rcases hst with hst | hst <;> rw [JobRow.stage, hst]

end Commits

/-! ## The simulation -/

section Simulation

variable {cfg : Config} {old : JobId → Bool} {s s' : State} {es es' : List Event}

theorem queue_congr (hstore : ∀ id, old id = false → (s'.mysql.store.job? id).map JobRow.ticket =
    (s.mysql.store.job? id).map JobRow.ticket) :
    s'.queue old = ⟨(s.queue old).tickets, s'.mysql.clock⟩ := by
  unfold State.queue
  congr 1
  funext id
  dsimp only
  split
  · rfl
  · exact hstore id (by simpa using ‹¬ old id = true›)

/-- What a step does to the queue, the queue can do. -/
theorem Run.simulated {s₀ : State} (h : Run cfg s₀ es s) (h₀ : Initial s₀) {a : Action}
    (hs : s.step cfg a = some (s', es')) : (Queue.machine (policy cfg)).Run (s.queue s₀.jobs)
      (deeds s₀.jobs es') (s'.queue s₀.jobs) := by
  have hst := step_cases hs
  have hk := h.kept h₀
  have hclock : s.mysql.clock ≤ s'.mysql.clock := hst.steps.clock_le
  -- Where no deed is done, the queue waits.
  have quiet (hnil : deeds s₀.jobs es' = []) (hsame : ∀ id, s₀.jobs id = false →
      (s'.mysql.store.job? id).map JobRow.ticket = (s.mysql.store.job? id).map JobRow.ticket) :
      (Queue.machine (policy cfg)).Run (s.queue s₀.jobs) (deeds s₀.jobs es')
        (s'.queue s₀.jobs) := by
    rw [hnil, queue_congr hsame]
    exact .one (.wait hclock)
  have still (hno : ∀ sid op b, .closed sid (.committed op b) ∈ es' → deed? op b = none)
      (hstore : s'.mysql.store = s.mysql.store) :
      (Queue.machine (policy cfg)).Run (s.queue s₀.jobs) (deeds s₀.jobs es')
        (s'.queue s₀.jobs) := by
    refine quiet (List.eq_nil_iff_forall_not_mem.2 fun ⟨id, d⟩ hx => ?_) fun _ _ => by rw [hstore]
    obtain ⟨-, sid, op, b, hc, hd⟩ := mem_deeds.1 hx
    rw [hno sid op b hc] at hd
    cases hd
  by_cases hc : ∃ sid op b, .closed sid (.committed op b) ∈ es'
  swap
  · refine still (fun sid op b hmem => absurd ⟨sid, op, b, hmem⟩ hc) (hst.steps.store_eq ?_)
    exact fun sid op b hmem => hc ⟨sid, op, b, mem_closings.1 hmem⟩
  obtain ⟨sid, op, b, hmem⟩ := hc
  obtain ⟨how, db, rfl, hclose, hone, hstore⟩ := hst.closed_mem hmem
  have hdeeds : deeds s₀.jobs es' = (deed? op b).toList.filter fun x => !s₀.jobs x.1 := by
    rw [deeds, hone]
    cases hd : deed? op b <;> simp [closedDeed?, hd]
  rcases hk.commit hclose with ⟨hsame, hno, -⟩ | ⟨id, lo, hi, hchange, hothers, hhi, -⟩
  · refine still (fun sid' op' b' hmem' => ?_) (hstore.trans hsame)
    obtain ⟨-, -, -, -, hone', -⟩ := hst.closed_mem hmem'
    obtain ⟨rfl, rfl, rfl⟩ : sid' = sid ∧ op' = op ∧ b' = b := by
      simpa using hone'.symm.trans hone
    cases hd : deed? op' b' with
    | none => rfl
    | some x => exact absurd (about_of_deed (d := x.2) hd) (by simp [hno])
  have hother (id' : JobId) (hid : id' ≠ id) : (s'.mysql.store.job? id').map JobRow.ticket =
      (s.mysql.store.job? id').map JobRow.ticket :=
    congrArg (·.row.map JobRow.ticket) (hstore ▸ hothers id' hid)
  cases hold : s₀.jobs id with
  | true =>
    -- The job was there before.
    refine quiet ?_ fun id' hid => hother id' fun heq => ?_
    · rw [hdeeds, List.filter_eq_nil_iff]
      intro x hx
      obtain rfl : id = x.1 := Option.some.inj ((hchange.about_eq outboxOf_jobId).symm.trans
        (about_of_deed (d := x.2) (Option.mem_toList.1 hx)))
      simp [hold]
    · simp [heq, hold] at hid
  | false =>
    have hnew : s₀.mysql.store.job? id = none := by simpa [State.jobs] using hold
    rcases h.takes h₀ hnew hclose hchange hhi with ⟨hnone, hsame⟩ | ⟨d, t, hd, ht, htakes⟩
    · refine quiet (by rw [hdeeds, hnone]; rfl) fun id' _ => ?_
      by_cases hid : id' = id
      · rw [hid, hstore, hsame]
      · exact hother id' hid
    · have hdo : Queue.Does (policy cfg) (s.queue s₀.jobs) [(id, d)]
          ⟨Function.update (s.queue s₀.jobs).tickets id
            ((s'.mysql.store.job? id).map JobRow.ticket), s.mysql.clock⟩ := by
        refine .deed ht ?_
        rw [hstore]
        simpa [State.queue, hold] using htakes
      have hend : s'.queue s₀.jobs = ⟨Function.update (s.queue s₀.jobs).tickets id
          ((s'.mysql.store.job? id).map JobRow.ticket), s'.mysql.clock⟩ := by
        unfold State.queue
        congr 1
        funext id'
        by_cases hid : id' = id
        · subst hid
          rw [Function.update_self, hold]
          rfl
        · rw [Function.update_of_ne hid, hother id' hid]
      have hsingle : deeds s₀.jobs es' = [(id, d)] := by
        rw [hdeeds, hd]
        simp [hold]
      rw [hsingle, hend, ← List.append_nil [(id, d)]]
      exact (Machine.Run.one hdo).step
        (.wait (q := ⟨Function.update (s.queue s₀.jobs).tickets id _, s.mysql.clock⟩) hclock)

/-- The queue simulates the system. -/
theorem system_simulated (cfg : Config) (old : JobId → Bool) :
    Simulates (Queue.machine (policy cfg)) (system cfg old) fun s q => q = s.queue old ∧
      ∃ s₀ es, Initial s₀ ∧ s₀.jobs = old ∧ Run cfg s₀ es s where
  start s h := by
    obtain ⟨h₀, rfl⟩ := h
    refine ⟨s.queue s.jobs, fun id => ?_, rfl, s, [], h₀, rfl, .refl⟩
    cases hr : s.mysql.store.job? id <;> simp [State.queue, State.jobs, hr]
  step s q o s' hR hs := by
    obtain ⟨rfl, s₀, es, h₀, rfl, h⟩ := hR
    obtain ⟨a, es', hs, rfl⟩ := hs
    exact ⟨_, h.simulated h₀ hs, rfl, s₀, _, h₀, rfl, h.step hs⟩

theorem Run.system {s₀ : State} (h : Run cfg s₀ es s) (old : JobId → Bool) :
    (system cfg old).Run s₀ (deeds old es) s := by
  induction h with
  | refl => exact .refl
  | step _ hs ih =>
    rw [deeds_append]
    exact ih.step ⟨_, _, hs, rfl⟩

/-- In every run, the jobs that are made go through a queue of leased jobs: each commit does
    what the queue allows then, in the order of the commits. -/
theorem refines_queue {s₀ : State} (h₀ : Initial s₀) (h : Run cfg s₀ es s) :
    (Queue.machine (policy cfg)).Start (s₀.queue s₀.jobs) ∧
      (Queue.machine (policy cfg)).Run (s₀.queue s₀.jobs) (deeds s₀.jobs es)
        (s.queue s₀.jobs) := by
  have hsim := system_simulated cfg s₀.jobs
  obtain ⟨q, hstart, hR⟩ := hsim.start s₀ ⟨h₀, rfl⟩
  obtain ⟨q', hrun, rfl, -⟩ := hsim.run hR (h.system s₀.jobs)
  rw [hR.1] at hstart hrun
  exact ⟨hstart, hrun⟩

/-- The first job is submitted, leased, and put back. -/
theorem refines_queue_first :
    let run := State.after (firstClaim ++ finishing "w" 4 0 (.failed "no" false))
    (Queue.machine (policy (.defaults id))).Run ⟨fun _ => none, 0⟩
      [(firstJob, .submit 4), (firstJob, .lease ⟨"w", 1, 1⟩),
        (firstJob, .finish ⟨"w", 1, 1⟩ .retried)] (run.1.queue fun _ => false) :=
  (refines_queue .fresh (Run.play (.defaults id) .fresh
    (firstClaim ++ finishing "w" 4 0 (.failed "no" false)))).2

end Simulation

/-! ## Rows do not come back -/

section Rows

variable {cfg : Config} {s₀ s s' : State} {es es' : List Event} {id : JobId} {r : JobRow}

/-- The two rows differ in nothing but an extended lease. -/
def JobRow.Extends (r r' : JobRow) : Prop :=
  r' = { r with leaseUntil := r'.leaseUntil, updatedAt := r'.updatedAt } ∧
    (r.status ≠ .processing → r' = r)

theorem JobRow.Extends.refl (r : JobRow) : r.Extends r := ⟨rfl, fun _ => rfl⟩

theorem JobRow.Extends.trans {r r' r'' : JobRow} (h : r.Extends r') (h' : r'.Extends r'') :
    r.Extends r'' := by
  have hstatus : r'.status = r.status := by rw [h.1]
  refine ⟨?_, fun hr => (h'.2 (hstatus ▸ hr)).trans (h.2 hr)⟩
  rw [h'.1, h.1]

/-- What is not a deed, or extends a lease, does no more to the row. -/
theorem Change.extends {lease : ℕ} {lo hi : Env} {op : Op} {a : Answer} {v v' : JobView}
    (h : Change lease id lo hi op a v v') (hr : v.row = some r)
    (hd : ∀ d, deed? op a = some (id, d) → d.extends) : ∃ r', v'.row = some r' ∧ r.Extends r' := by
  cases h with
  | renewed hid hj hown =>
    obtain rfl := Option.some.inj hr
    exact ⟨_, rfl, rfl, fun hst => absurd (ownedBy_iff.1 hown).2.1 hst⟩
  | published => exact ⟨r, hr, .refl r⟩
  | dropped => exact ⟨r, hr, .refl r⟩
  | claimed => exact False.elim (hd _ rfl)
  | exhausted => exact False.elim (hd _ rfl)
  | @finished j e _ _ _ _ _ _ _ _ _ hj =>
    exact False.elim (hd (.finish j.grant e.verdict) (by rw [deed?, hj]))
  | @retried j _ _ _ _ _ _ _ _ _ _ hj =>
    exact False.elim (hd (.finish j.grant .retried) (by rw [deed?, hj]; rfl))
  | created => cases hr
  | requeued => exact False.elim (hd _ rfl)

theorem Life.extends {lease t₀ t : ℕ} {v₀ v : JobView} {h : List (Op × Answer)}
    (hl : Life lease id v₀ t₀ h v t) (hr : v₀.row = some r)
    (hd : ∀ x ∈ h, ∀ d, deed? x.1 x.2 = some (id, d) → d.extends) :
    ∃ r', v.row = some r' ∧ r.Extends r' := by
  induction hl with
  | start => exact ⟨r, hr, .refl r⟩
  | wait _ _ ih => exact ih hd
  | change _ hchange _ ih =>
    obtain ⟨r₁, hr₁, h₁⟩ := ih fun x hx => hd x (List.mem_append_left _ hx)
    obtain ⟨r₂, hr₂, h₂⟩ := hchange.extends hr₁
      (hd _ (List.mem_append_right _ (List.mem_singleton_self _)))
    exact ⟨r₂, hr₂, h₁.trans h₂⟩

theorem JobRow.rank_stage (hfail : r.status ≠ .failed) :
    r.stage.rank = if r.status = .processing then 0 else 1 := by
  unfold JobRow.stage
  cases hst : r.status <;> simp_all [Queue.Stage.rank]

/-- What is seen of a job later is a newer generation or attempt of it, or the end of the
    attempt it was in, or what was seen before but for an extended lease. -/
theorem rows_never_return (h₀ : Initial s₀) (h : Run cfg s₀ es s)
    (hnew : s₀.mysql.store.job? id = none) (hr : s.mysql.store.job? id = some r)
    (h' : Run cfg s es' s') : ∃ r', s'.mysql.store.job? id = some r' ∧
      (toLex (r.generation, r.attemptCount) < toLex (r'.generation, r'.attemptCount) ∨
        r.generation = r'.generation ∧ r.attemptCount = r'.attemptCount ∧
          (r.status = .processing ∧ r'.status ≠ .processing ∨ r.Extends r')) := by
  have hold : s₀.jobs id = false := by simp [State.jobs, hnew]
  have hrun : (Queue.machine (policy cfg)).Run (s.queue s₀.jobs) (deeds s₀.jobs es')
      (s'.queue s₀.jobs) := by
    obtain ⟨q, hrun, rfl, -⟩ := (system_simulated cfg s₀.jobs).run
      ⟨rfl, s₀, es, h₀, rfl, h⟩ (h'.system s₀.jobs)
    exact hrun
  have hticket : (s.queue s₀.jobs).tickets id = some r.ticket := by simp [State.queue, hold, hr]
  obtain ⟨x, hx, hversion⟩ := Queue.run_newer hrun hticket
  obtain ⟨r', hr', rfl⟩ : ∃ r', s'.mysql.store.job? id = some r' ∧ r'.ticket = x := by
    simpa [State.queue, hold] using hx
  have hrank := JobRow.rank_stage (h.regular h₀ hnew hr).not_failed
  have hrank' := JobRow.rank_stage ((h.trans h').regular h₀ hnew hr').not_failed
  refine ⟨r', hr', ?_⟩
  rcases hversion with hlt | ⟨heq, hext⟩
  · rcases Prod.Lex.toLex_lt_toLex.1 hlt with hgen | ⟨hgen, hcount⟩
    · exact .inl (Prod.Lex.toLex_lt_toLex.2 (.inl hgen))
    · simp only [JobRow.ticket, hrank, hrank'] at hgen hcount
      rcases Nat.lt_or_ge r.attemptCount r'.attemptCount with hlt | hle
      · exact .inl (Prod.Lex.toLex_lt_toLex.2 (.inr ⟨hgen, hlt⟩))
      · -- Within an attempt, its end is all that makes it newer.
        split at hcount <;> split at hcount
        all_goals first
          | omega
          | exact .inr ⟨hgen, by omega, .inl ⟨‹_›, ‹_›⟩⟩
  · obtain ⟨hgen, hcount⟩ := Prod.mk.inj (toLex.injective heq)
    simp only [JobRow.ticket, hrank, hrank'] at hgen hcount
    have hlife := ((h.kept h₀).life h'.steps).2 id
    obtain ⟨r'', hr'', hsame⟩ := hlife.extends (r := r) hr fun ⟨op, a⟩ hmem d hd => by
      obtain ⟨⟨sid, hc⟩, -⟩ := mem_history.1 hmem
      exact hext d (mem_deeds.2 ⟨hold, sid, op, a, mem_closings.1 hc, hd⟩)
    obtain rfl := Option.some.inj (hr'.symm.trans hr'')
    refine .inr ⟨hgen, ?_, .inr hsame⟩
    split at hcount <;> split at hcount <;> omega

end Rows

/-- The first job, seen while its first attempt was under way. -/
theorem rows_never_return_first :
    let s := (State.after firstClaim).1
    let s' := (s.play (.defaults id) (finishing "w" 4 0 (.failed "no" false))).1
    ∃ r r', s.mysql.store.job? firstJob = some r ∧ s'.mysql.store.job? firstJob = some r' ∧
      r.attemptCount = r'.attemptCount ∧ r.status = .processing ∧ r'.status ≠ .processing := by
  intro s s'
  obtain ⟨r', hr', hnewer⟩ := rows_never_return .fresh (Run.play (.defaults id) .fresh firstClaim)
    (show State.fresh.mysql.store.job? firstJob = none from rfl) rfl (Run.play (.defaults id) s
      (finishing "w" 4 0 (.failed "no" false)))
  obtain rfl : _ = r' := Option.some.inj hr'
  refine ⟨_, _, rfl, hr', ?_⟩
  rcases hnewer with hlt | ⟨-, hcount, ⟨hst, hst'⟩ | hext⟩
  · exact absurd hlt (by decide)
  · exact ⟨hcount, hst, hst'⟩
  · exact absurd (congrArg JobRow.status hext.1) (by decide)

end ScaleQueue
