import Mathlib.Algebra.BigOperators.Group.Finset.Piecewise
import ScaleQueue.Logs

/-!
# The counters of a process

A worker process counts what its `ProcessJob`s do (`Metrics`): a claim that returned a job,
and an outcome that `Finish` has persisted. The log of every job names the worker of each
transition, so the counters can be compared with it (`Agrees`). They agree except in one
place: when `Claim` gives up a job whose attempts are used up it returns no job, and nobody
counts that it is dead (`counters_agree_iff`).
-/

namespace ScaleQueue

open Locking

/-! ## Counting -/

/-- The totals that `ProcessJob` counts. -/
inductive Counter
  | attempts
  | completed
  | dead
  | retries
  deriving DecidableEq

/-- The counters of a process, as it starts with them. -/
structure Metrics where
  inFlight : ℤ := 0
  total : Counter → ℕ := fun _ => 0

/-- The counter of the status that `Finish` was called with. -/
def Ending.counter : Ending → Counter
  | .completed => .completed
  | .dead => .dead
  | .pending => .retries

namespace Metrics

variable (m : Metrics)

/-- A total goes up by one. -/
def add (c : Counter) : Metrics := { m with total := Function.update m.total c (m.total c + 1) }

/-- `ProcessJob` goes on with a job, and will leave. -/
def enter : Metrics := { m with inFlight := m.inFlight + 1 }

/-- The deferred `InFlight.Add(-1)`. -/
def leave : Metrics := { m with inFlight := m.inFlight - 1 }

/-- `Claim` returned. -/
def claimReturned : Option Answer → Metrics
  | some (.job _) => m.enter.add .attempts
  | _ => m

/-- `Finish`, which was called with the status, returned. -/
def finishReturned (e : Ending) : Option Answer → Metrics
  | some .done => (m.add e.counter).leave
  | _ => m.leave

/-- The session, which was opened for the operation, returned to a worker in this phase. -/
def returned (p : Phase) (sid : Sid) (op : Op) (answer : Option Answer) : Metrics :=
  match p, op with
  | .claiming _ sid', _ => if sid' = sid then m.claimReturned answer else m
  | .finishing h _ sid', .finish _ e _ _ =>
    if sid' = sid then m.finishReturned e (if h.done then none else answer) else m
  | _, _ => m

/-- A step of a worker in this phase. -/
def act (p : Phase) : WorkerAct → Metrics
  | .result .panicked =>
    match p with
    | .running _ _ none _ => m.leave
    | _ => m
  | .settle _ =>
    match p with
    | .running _ _ (some _) .failed => m.leave
    | .running h _ (some _) .waiting => if h.done then m.leave else m
    | _ => m
  | _ => m

variable (P : Finset WorkerId) (s : State)

/-- The answer to a session goes to a worker of the process, or to somebody else. -/
def deliver (sid : Sid) (answer : Option Answer) : Metrics :=
  match sid.party.client, s.mysql.sessions sid with
  | .worker w, some y =>
    if w ∈ P then
      match s.workers w with
      | some x => m.returned x.phase sid y.op answer
      | none => m
    else m
  | _, _ => m

/-- The counters of the process with the workers `P` after a step. -/
def step : Action → Metrics
  | .worker w a =>
    if w ∈ P then
      match s.workers w with
      | some x => m.act x.phase a
      | none => m
    else m
  | .close sid how =>
    match s.mysql.close sid how with
    | some (_, c) => m.deliver P s sid (answerOf c)
    | none => m
  | .giveUp sid => m.deliver P s sid none
  | _ => m

end Metrics

/-! ## The log -/

/-- The total that a transition belongs to. -/
def LogRow.counter? (l : LogRow) : Option Counter :=
  match l.fromStatus, l.toStatus with
  | _, .processing => some .attempts
  | _, .completed => some .completed
  | _, .dead => some .dead
  | some .processing, .pending => some .retries
  | _, _ => none

/-- How many transitions of the kind the log has of the workers. -/
def recorded (P : Finset WorkerId) (c : Counter) (t : Tables) : ℕ :=
  t.jobAuditLogs.countP fun l => l.counter? = some c ∧ l.workerId.any (· ∈ P)

/-- The counters tell what was recorded since `t₀`. -/
structure Agrees (P : Finset WorkerId) (t₀ t : Tables) (m : Metrics) : Prop where
  inFlight : m.inFlight = 0
  total : ∀ c, recorded P c t = recorded P c t₀ + m.total c

/-! ## Runs of a process -/

/-- The worker that a transaction is of, if it may log. -/
def Op.worker? : Op → Option WorkerId
  | .claim _ _ w => some w
  | .finish j _ _ _ => some j.leaseOwner
  | _ => none

/-- The worker is told an answer. -/
def Event.answers (w : WorkerId) : Event → Bool
  | .reported w' _ _ (some _) => w' = w
  | _ => false

/-- No worker of the process misses that a transaction of it has committed. -/
def Lossless (P : Finset WorkerId) (es : List Event) : Bool :=
  es.all fun
    | .closed _ (.committed op _) => op.worker?.all fun w => w ∉ P ∨ es.any (·.answers w)
    | _ => true

/-- A worker of the process crashes, and the process with it. -/
def Action.kills (P : Finset WorkerId) : Action → Bool
  | .worker w .crash => w ∈ P
  | _ => false

/-- The operation claims, for a worker of the process, a job whose attempts are used up. -/
def Op.spent (P : Finset WorkerId) (t : Tables) : Op → Bool
  | .claim id _ w => w ∈ P ∧ (t.job? id).any fun r => r.maxRetries + 1 ≤ r.attemptCount
  | _ => false

/-- The session that was closed has committed such a claim. -/
def gaveUp (P : Finset WorkerId) (t : Tables) : Closed Answer Op → Bool
  | .committed op _ => op.spent P t
  | _ => false

/-- The step commits such a claim. -/
def State.exhausts (P : Finset WorkerId) (s : State) : Action → Bool
  | .close sid how => (s.mysql.close sid how).any fun x => gaveUp P s.mysql.store x.2
  | _ => false

/-- `ProcessJob` has been called, and has not returned. -/
def Phase.processing : Phase → Bool
  | .claiming _ _ => true
  | .running _ _ _ _ => true
  | .finishing _ _ _ => true
  | _ => false

/-- A run in which the process of the workers `P` does not crash and loses no result of a
    commit: what happened, the state it leads to, the counters of the process, and how often
    its claims came upon a job whose attempts were used up. -/
inductive Metered (cfg : Config) (P : Finset WorkerId) (s₀ : State) :
    List Event → State → Metrics → ℕ → Prop
  | start : Metered cfg P s₀ [] s₀ {} 0
  | step {es es' : List Event} {s s' : State} {m : Metrics} {n : ℕ} {a : Action}
      (h : Metered cfg P s₀ es s m n) (hs : s.step cfg a = some (s', es'))
      (hlives : a.kills P = false) (hlossless : Lossless P es' = true) :
      Metered cfg P s₀ (es ++ es') s' (m.step P s a) (n + (s.exhausts P a).toNat)

/-- No `ProcessJob` of the process is in progress. -/
def State.Quiet (P : Finset WorkerId) (s : State) : Prop :=
  ∀ w ∈ P, ∀ x ∈ s.workers w, x.phase.processing = false

instance (P : Finset WorkerId) (s : State) : Decidable (s.Quiet P) :=
  inferInstanceAs (Decidable (∀ w ∈ P, _))

/-- What the process counts when the operation returns the answer. -/
def Op.counts : Op → Answer → Option Counter
  | .claim _ _ _, .job _ => some .attempts
  | .finish _ e _ _, .done => some e.counter
  | _, _ => none

/-- How many `ProcessJob`s of the phase are in flight. -/
def Phase.load (p : Phase) : ℤ := if p.job?.isSome then 1 else 0

/-- How many `ProcessJob`s of the worker are in flight. -/
def State.load (s : State) (w : WorkerId) : ℤ := (s.workers w).elim 0 (·.phase.load)

section Steps

variable {cfg : Config} {P : Finset WorkerId} {s s' : State} {m : Metrics} {w : WorkerId}
  {x x' : Worker} {fx : Effects} {sid : Sid} {db db' : MySQL}

@[simp] theorem Metrics.add_inFlight (c : Counter) : (m.add c).inFlight = m.inFlight := rfl
@[simp] theorem Metrics.enter_inFlight : m.enter.inFlight = m.inFlight + 1 := rfl
@[simp] theorem Metrics.leave_inFlight : m.leave.inFlight = m.inFlight - 1 := rfl
@[simp] theorem Metrics.enter_total : m.enter.total = m.total := rfl
@[simp] theorem Metrics.leave_total : m.leave.total = m.total := rfl

theorem Metrics.add_total (c c' : Counter) :
    (m.add c).total c' = m.total c' + if c = c' then 1 else 0 := by
  by_cases hc : c = c'
  · subst hc
    simp [Metrics.add]
  · simp [Metrics.add, Function.update_of_ne (Ne.symm hc), hc]

@[simp] theorem Phase.load_cancel (p : Phase) : p.cancel.load = p.load := by
  rw [Phase.load, Phase.cancel_job, Phase.load]

/-- A worker does not take a job in hand by itself. -/
theorem Acted.job_none (h : Acted s w x x' fx) (hx : x.phase.job? = none) :
    x'.phase.job? = none := by
  cases hj : x'.phase.job? with
  | none => rfl
  | some j => simp [h.job hj] at hx

/-- A step of a worker counts who leaves, and nothing else. -/
theorem act_metrics {a : WorkerAct} (h : x.act cfg s w a = some (x', fx)) (ha : a ≠ .crash) :
    (m.act x.phase a).inFlight + x.phase.load = m.inFlight + x'.phase.load ∧
      (m.act x.phase a).total = m.total := by
  -- Without a job in hand there is nothing to count, and no job comes in hand.
  have hidle (hx : x.phase.job? = none) (hact : m.act x.phase a = m) :
      (m.act x.phase a).inFlight + x.phase.load = m.inFlight + x'.phase.load ∧
        (m.act x.phase a).total = m.total := by
    simp [hact, Phase.load, (act_cases h).job_none hx, hx]
  cases a with
  | loop | recover | read | ack =>
    refine hidle ?_ rfl
    simp only [Worker.act] at h
    split at h
    · simp [‹x.phase = _›, Phase.job?]
    · simp at h
  | tick =>
    simp only [Worker.act] at h
    split at h
    · split at h
      · simp at h
      · obtain ⟨rfl, rfl⟩ := Prod.mk.inj (Option.some.inj h)
        simp [‹x.phase = _›, Metrics.act, Phase.load, Phase.job?]
    · simp at h
  | result r =>
    simp only [Worker.act] at h
    split at h
    · split at h
      · obtain ⟨rfl, rfl⟩ := Prod.mk.inj (Option.some.inj h)
        simp [‹x.phase = _›, ‹r = _›, Metrics.act, Phase.load, Phase.job?]
      · obtain ⟨rfl, rfl⟩ := Prod.mk.inj (Option.some.inj h)
        cases r <;> simp_all [Metrics.act, Phase.load, Phase.job?]
    · simp at h
  | settle jitter =>
    simp only [Worker.act] at h
    split at h
    · obtain ⟨rfl, rfl⟩ := Prod.mk.inj (Option.some.inj h)
      simp [‹x.phase = _›, Metrics.act, Phase.load, Phase.job?]
    · split at h
      · obtain ⟨rfl, rfl⟩ := Prod.mk.inj (Option.some.inj h)
        simp [‹x.phase = _›, ‹Handle.done _ = _›, Metrics.act, Phase.load, Phase.job?]
      · split at h
        · simp at h
        · obtain ⟨rfl, rfl⟩ := Prod.mk.inj (Option.some.inj h)
          simp [‹x.phase = _›, ‹¬ Handle.done _ = _›, Metrics.act, Phase.load, Phase.job?]
    · simp at h
  | expire =>
    simp only [Worker.act] at h
    split at h
    · split at h
      · obtain ⟨rfl, rfl⟩ := Prod.mk.inj (Option.some.inj h)
        simp [Metrics.act]
      · simp at h
    · simp at h
  | stop =>
    obtain ⟨rfl, rfl⟩ := Prod.mk.inj (Option.some.inj h)
    exact ⟨rfl, rfl⟩
  | cancel =>
    simp only [Worker.act] at h
    split at h
    · split at h
      · obtain ⟨rfl, rfl⟩ := Prod.mk.inj (Option.some.inj h)
        simp [Metrics.act]
      · simp at h
    · simp at h
  | crash => exact absurd rfl ha

/-- The answer to a session counts who enters and who leaves, and what the operation counts,
    if the worker does not miss it. -/
theorem Told.metrics {op : Op} {a : Option Answer} (h : Told w sid a x x' fx)
    (hw : x.phase.Waits w sid op)
    (htold : (a.bind op.counts).isSome → fx.events.any (·.answers w) = true) :
    (m.returned x.phase sid op a).inFlight + x.phase.load = m.inFlight + x'.phase.load ∧
      ∀ c, (m.returned x.phase sid op a).total c =
        m.total c + if a.bind op.counts = some c then 1 else 0 := by
  cases h with
  | claimed hx ha _ hp =>
    rw [hx] at hw
    cases hw
    simp [hx, hp, ha, Metrics.returned, Metrics.claimReturned, Metrics.add_total, Op.counts,
      Phase.load, Phase.job?]
  | unregistered hx ha _ hp =>
    rw [hx] at hw
    cases hw
    simp [hx, hp, ha, Metrics.returned, Metrics.claimReturned, Metrics.add_total, Op.counts,
      Phase.load, Phase.job?]
  | nothing hx ha hp =>
    rw [hx] at hw
    cases hw
    simp [hx, hp, ha, Metrics.returned, Metrics.claimReturned, Op.counts, Phase.load, Phase.job?]
  | unclaimed hx ha ha' hp =>
    rw [hx] at hw
    cases hw
    have hcount : m.claimReturned a = m := by
      unfold Metrics.claimReturned
      split
      · exact absurd rfl (ha _)
      · rfl
    have hnone (h : Handle) : a.bind (Op.claim h.jobId h.generation w).counts = none := by
      cases a with
      | none => rfl
      | some b => cases b <;> simp_all [Op.counts]
    simp [hx, hp, hcount, hnone, Metrics.returned, Phase.load, Phase.job?]
  | finished hx ha hlive hp =>
    rw [hx] at hw
    cases hw
    simp [hx, hp, ha, hlive, Metrics.returned, Metrics.finishReturned, Metrics.add_total, Op.counts,
      Phase.load, Phase.job?]
  | @unfinished h j a' hx ha ha' hp he =>
    rw [hx] at hw
    cases hw with
    | @finish _ _ _ e message delay =>
      -- Had it been told that `Finish` is done, it would have finished.
      have hne : a ≠ some .done := by
        rintro rfl
        have htold := htold rfl
        rw [he] at htold
        rcases ha with rfl | ⟨rfl, -⟩
        · exact ha' rfl
        · simp [Event.answers] at htold
      have hcount : m.finishReturned e (if h.done then none else a) = m.leave := by
        unfold Metrics.finishReturned
        split
        · split at * <;> simp_all
        · rfl
      have hnone : a.bind (Op.finish j e message delay).counts = none := by
        cases a with
        | none => rfl
        | some b => cases b <;> simp_all [Op.counts]
      simp [hx, hp, hcount, hnone, Metrics.returned, Phase.load, Phase.job?]
  | renewed hx ha hp =>
    rw [hx] at hw
    cases hw
    cases a <;> simp [hx, hp, Metrics.returned, Op.counts, Phase.load, Phase.job?]
  | unrenewed hx ha hp =>
    rw [hx] at hw
    cases hw
    cases a <;> simp [hx, hp, Metrics.returned, Op.counts, Phase.load, Phase.job?]

/-! ## What is recorded -/

/-- The entry that the write adds to the log. -/
def Write.log? : Write → Option LogRow
  | .insertLog l => some l
  | _ => none

theorem logs_applyAll (t : Tables) (ws : List Write) :
    (applyAll t ws).jobAuditLogs = t.jobAuditLogs ++ ws.filterMap Write.log? := by
  induction ws generalizing t with
  | nil => simp
  | cons w ws ih =>
    rw [applyAll_cons, ih, apply_eq]
    cases w <;> simp [Write.log?, List.filterMap_cons]

/-- A commit that changes anything adds to the log what it adds to that of its job. -/
theorem Kept.logs_commit (hk : Kept cfg db) {how : Closing} {op : Op} {a : Answer}
    (hx : db.close sid how = some (db', .committed op a)) :
    db'.store = db.store ∧ about op a = none ∨ ∃ id lo hi ls,
      Change cfg.lease id lo hi op a (db.store.view id) (db'.store.view id) ∧
      db'.store.jobAuditLogs = db.store.jobAuditLogs ++ ls ∧
      (db'.store.view id).logs = (db.store.view id).logs ++ ls := by
  obtain ⟨y, -, ⟨_, -, -, rfl⟩ | ⟨_, -, hc, -⟩ | ⟨hc, -⟩⟩ := Server.close_cases hx
  · rcases hk.commit hx with ⟨hstore, habout, -⟩ | ⟨id, lo, hi, hchange, hothers, -⟩
    · exact .inl ⟨hstore, habout⟩
    · have hlogs := logs_applyAll db.store y.writes
      refine .inr ⟨id, lo, hi, _, hchange, hlogs, ?_⟩
      -- An entry of another job would show in the log of that job.
      have hid : ∀ l ∈ y.writes.filterMap Write.log?, l.jobId = id := by
        intro l hl
        by_contra hne
        have hsame : (applyAll db.store y.writes).logsOf l.jobId = db.store.logsOf l.jobId :=
          congrArg JobView.logs (hothers l.jobId hne)
        rw [Tables.logsOf, hlogs, List.filter_append, Tables.logsOf, List.append_right_eq_self]
          at hsame
        exact absurd (decide_eq_true rfl) (List.filter_eq_nil_iff.1 hsame l hl)
      show (applyAll db.store y.writes).logsOf id = db.store.logsOf id ++ _
      rw [Tables.logsOf, hlogs, List.filter_append, Tables.logsOf]
      congr 1
      exact List.filter_eq_self.2 fun l hl => decide_eq_true (hid l hl)
  · cases hc
  · cases hc

/-- What a commit adds to the log is what its operation counts, or the end of a job that
    nobody counts. -/
theorem Change.counted {lease : ℕ} {id : JobId} {lo hi : Env} {op : Op} {a : Answer}
    {v v' : JobView} (h : Change lease id lo hi op a v v') {ls : List LogRow}
    (hlogs : v'.logs = v.logs ++ ls) {t : Tables} (hrow : t.job? id = v.row) (c : Counter) :
    ls.countP (fun l => l.counter? = some c ∧ l.workerId.any (· ∈ P)) =
      (if op.worker?.any (· ∈ P) ∧ op.counts a = some c then 1 else 0) +
        if .dead = c then (op.spent P t).toNat else 0 := by
  cases h with
  | @claimed g owner _ _ _ _ _ _ _ _ _ hbudget =>
    obtain rfl := List.append_cancel_left hlogs
    -- A claim that was granted had an attempt left.
    have hspent : (Op.claim id g owner).spent P t = false := by
      simp only [Op.spent, hrow, Option.any_some, decide_eq_false_iff_not, not_and,
        decide_eq_true_eq]
      intro _
      omega
    simp [LogRow.counter?, Op.worker?, Op.counts, hspent, and_comm]
  | @exhausted g owner _ _ _ _ _ _ _ _ _ hbudget =>
    obtain rfl := List.append_cancel_left hlogs
    have hspent : (Op.claim id g owner).spent P t = decide (owner ∈ P) := by
      simp only [Op.spent, hrow, Option.any_some, decide_eq_true_eq, decide_eq_decide]
      exact and_iff_left hbudget
    by_cases howner : owner ∈ P <;>
      simp [LogRow.counter?, Op.worker?, Op.counts, hspent, howner]
  | renewed =>
    obtain rfl := List.self_eq_append_right.1 hlogs
    simp [Op.worker?, Op.spent]
  | @finished _ e =>
    obtain rfl := List.append_cancel_left hlogs
    cases e <;> simp_all [LogRow.counter?, Op.worker?, Op.counts, Op.spent, Ending.status,
      Ending.counter, and_comm]
  | retried =>
    obtain rfl := List.append_cancel_left hlogs
    simp [LogRow.counter?, Op.worker?, Op.counts, Op.spent, Ending.counter, and_comm]
  | published =>
    obtain rfl := List.self_eq_append_right.1 hlogs
    simp [Op.worker?, Op.spent]
  | dropped =>
    obtain rfl := List.self_eq_append_right.1 hlogs
    simp [Op.worker?, Op.spent]
  | created =>
    obtain rfl := List.append_cancel_left hlogs
    simp [Op.worker?, Op.spent]
  | requeued =>
    obtain rfl := List.append_cancel_left hlogs
    simp [Op.worker?, Op.spent]

/-- What was refused has no answer that counts. -/
theorem Refused.counts {lease : ℕ} {t : Tables} {lo hi : Env} {op : Op} {a : Answer}
    (h : Refused lease t lo hi op a) : op.counts a = none := by
  cases h <;> rfl

/-- What a closed session adds to the log. -/
theorem Kept.records (hk : Kept cfg db) {how : Closing} {k : Closed Answer Op} {y : Conn}
    (hx : db.close sid how = some (db', k)) (hy : db.sessions sid = some y) (c : Counter) :
    recorded P c db'.store = recorded P c db.store +
      (if y.op.worker?.any (· ∈ P) ∧ (answerOf k).bind y.op.counts = some c then 1 else 0) +
        if .dead = c then (gaveUp P db.store k).toNat else 0 := by
  obtain ⟨x, hx', hcase⟩ := Server.close_cases hx
  obtain rfl := Option.some.inj (hx'.symm.trans hy)
  rcases hcase with ⟨a, -, rfl, -⟩ | ⟨a, -, rfl, rfl⟩ | ⟨rfl, rfl⟩
  · rcases hk.logs_commit hx with ⟨hstore, habout⟩ | ⟨id, lo, hi, ls, hchange, hlogs, hview⟩
    · rw [hstore]
      cases hop : x.op <;> simp_all [about, Op.worker?, gaveUp, Op.spent]
    · rw [recorded, hlogs, List.countP_append, hchange.counted hview rfl c, Nat.add_assoc]
      rfl
  · obtain ⟨-, _, _, -, -, hwhy, -⟩ := hk.abort hx
    simp [Server.drop, answerOf, hwhy.counts, gaveUp]
  · simp [Server.drop, answerOf, gaveUp]

/-! ## A step -/

/-- Only the worker that has changed has more or less in flight. -/
theorem sum_load (P : Finset WorkerId) (s s' : State)
    (hs : s'.workers = Function.update s.workers w (some x')) :
    ∑ v ∈ P, s'.load v + (if w ∈ P then s.load w else 0) =
      ∑ v ∈ P, s.load v + if w ∈ P then x'.phase.load else 0 := by
  have hload : s'.load = Function.update s.load w x'.phase.load := by
    funext v
    by_cases hv : v = w
    · subst hv
      simp [State.load, hs]
    · simp [State.load, hs, hv]
  rw [hload]
  by_cases hw : w ∈ P
  · rw [Finset.sum_update_of_mem hw, Finset.sdiff_singleton_eq_erase,
      ← Finset.add_sum_erase P s.load hw, if_pos hw, if_pos hw]
    omega
  · rw [Finset.sum_update_of_notMem hw, if_neg hw, if_neg hw]

/-- Who is told an answer has waited for it. -/
theorem Told.waited {a : Option Answer} (h : Told w sid a x x' fx) :
    ∃ op, x.phase.Waits w sid op := by
  cases h with
  | claimed hx | unregistered hx | nothing hx | unclaimed hx =>
    rw [hx]
    exact ⟨_, .claim⟩
  | finished hx | unfinished hx =>
    rw [hx]
    exact ⟨.finish _ .completed "" 0, .finish⟩
  | renewed hx | unrenewed hx =>
    rw [hx]
    exact ⟨_, .renew⟩

theorem answers_worker {e : Event} (h : e.answers w = true) : e.worker? = some w := by
  cases e with
  | reported w' n k a =>
    cases a with
    | none => simp [Event.answers] at h
    | some b => simpa [Event.answers, Event.worker?] using h
  | _ => simp [Event.answers] at h

/-- What a worker waits for is its own, if it counts. -/
theorem Fenced.mine {es : List Event} (hf : Fenced es s) (hw : s.workers w = some x) {op : Op}
    (h : x.phase.Waits w sid op) :
    op.worker? = some w ∨ op.worker? = none ∧ ∀ a, op.counts a = none := by
  generalize hp : x.phase = p at h
  cases h with
  | claim => exact .inl rfl
  | finish => exact .inl (congrArg some (hf.owner w x _ hw (by rw [hp]; rfl)))
  | renew => exact .inr ⟨rfl, fun _ => rfl⟩

theorem party_worker (h : sid.party.client = .worker w) :
    sid.party = .worker w ∨ sid.party = .beat w := by
  cases hp : sid.party <;> simp_all [Party.client]

/-- A worker that does not wait for the session counts nothing. -/
theorem returned_none {op : Op} {a : Option Answer} (h : x.returned w sid a = none) :
    m.returned x.phase sid op a = m := by
  unfold Worker.returned at h
  unfold Metrics.returned
  split at h
  · simp_all
  · cases op <;> simp_all
  · simp_all
  · split <;> simp_all

/-- Who is told an answer has waited for it, for what the session was opened for. -/
theorem Paired.told_session {a : Option Answer} {y : Conn} (hp : Paired none s)
    (h : Told w sid a x x' fx) (hw : s.workers w = some x) (hy : s.mysql.sessions sid = some y) :
    sid.party.client = .worker w ∧ x.phase.Waits w sid y.op := by
  obtain ⟨op, hwait⟩ := h.waited
  obtain ⟨hclient, -⟩ := hp.party (.worker w) sid op ⟨x, hw, hwait⟩
  obtain hgone | ⟨y', hy', x₁, hw', hwait'⟩ := hp.waited (.worker w) sid op ⟨x, hw, hwait⟩
  · cases hgone
  · obtain rfl := Option.some.inj (hy'.symm.trans hy)
    obtain rfl := Option.some.inj (hw'.symm.trans hw)
    exact ⟨hclient, hwait'⟩

theorem Delivered.metrics {es es' : List Event} {t : State} {a : Option Answer} {y : Conn}
    (hd : Delivered cfg t sid a s' es') (ht : t.workers = s.workers) (hp : Paired none s)
    (hf : Fenced es s) (hy : s.mysql.sessions sid = some y)
    (htold : ∀ w ∈ P, y.op.worker? = some w → (a.bind y.op.counts).isSome →
      es'.any (·.answers w) = true) :
    (m.deliver P s sid a).inFlight + ∑ w ∈ P, s.load w = m.inFlight + ∑ w ∈ P, s'.load w ∧
      ∀ c, (m.deliver P s sid a).total c =
        m.total c + if y.op.worker?.any (· ∈ P) ∧ a.bind y.op.counts = some c then 1 else 0 := by
  have hload (hs : s'.workers = s.workers) : ∑ w ∈ P, s'.load w = ∑ w ∈ P, s.load w := by
    simp [State.load, hs]
  -- When nobody hears of it, there is nothing to count.
  have hmissed (hno : ∀ w, es'.any (·.answers w) = false) (c : Counter) :
      ¬ (y.op.worker?.any (· ∈ P) ∧ a.bind y.op.counts = some c) := by
    rintro ⟨hw, hc⟩
    obtain ⟨w, hw, hmem⟩ := (Option.any_eq_true _ _).1 hw
    simpa [hno] using htold w (of_decide_eq_true hmem) hw (by simp [hc])
  cases hd with
  | nobody hnone =>
    have hm : m.deliver P s sid a = m := by
      unfold Metrics.deliver
      split
      · rename_i w y' hc _
        split_ifs
        · split
          · rename_i x hx
            have := hnone w x (party_worker hc) (ht ▸ hx)
            exact returned_none this
          · rfl
        · rfl
      · rfl
    exact ⟨by rw [hm, hload ht], fun c => by rw [hm, if_neg (hmissed (fun _ => rfl) c)]; rfl⟩
  | @worker w x x' fx hparty hw hx =>
    have hw : s.workers w = some x := ht ▸ hw
    have htell := returned_cases hx
    obtain ⟨hclient, hwait⟩ := hp.told_session htell hw hy
    have hworkers : ((t.affect cfg fx).setWorker w x').workers =
        Function.update s.workers w (some x') := by
      simp [State.setWorker, ht]
    have hsum := sum_load P s _ hworkers
    have hself : s.load w = x.phase.load := by simp [State.load, hw]
    have hcount (hnone : ∀ b, y.op.counts b = none) : a.bind y.op.counts = none := by
      cases a with
      | none => rfl
      | some b => exact hnone b
    by_cases hwP : w ∈ P
    · have hm : m.deliver P s sid a = m.returned x.phase sid y.op a := by
        simp [Metrics.deliver, hclient, hy, hw, hwP]
      rw [if_pos hwP, if_pos hwP] at hsum
      -- The session is one that the worker counts, or a renewal.
      rcases hf.mine hw hwait with hop | ⟨hop, hnone⟩
      · obtain ⟨hin, htotal⟩ := htell.metrics (m := m) hwait (htold w hwP hop)
        refine ⟨by rw [hm]; omega, fun c => ?_⟩
        rw [hm, htotal]
        simp [hop, hwP]
      · obtain ⟨hin, htotal⟩ := htell.metrics (m := m) hwait (by simp [hcount hnone])
        refine ⟨by rw [hm]; omega, fun c => ?_⟩
        rw [hm, htotal]
        simp [hop, hcount hnone]
    · have hm : m.deliver P s sid a = m := by
        simp [Metrics.deliver, hclient, hy, hwP]
      rw [if_neg hwP, if_neg hwP] at hsum
      refine ⟨by rw [hm]; omega, fun c => ?_⟩
      rw [hm]
      rcases hf.mine hw hwait with hop | ⟨hop, -⟩ <;> simp [hop, hwP]
  | dispatcher hparty hdx hx =>
    have hm : m.deliver P s sid a = m := by simp [Metrics.deliver, hparty, Party.client]
    exact ⟨by rw [hm, hload ht], fun c => by rw [hm, if_neg (hmissed (fun _ => rfl) c)]; rfl⟩
  | call hparty hc hx hpr =>
    have hm : m.deliver P s sid a = m := by simp [Metrics.deliver, hparty, Party.client]
    refine ⟨by rw [hm, hload ht], fun c => ?_⟩
    rw [hm, if_neg (hmissed (fun w => List.any_eq_false.2 fun e he hw => ?_) c)]
    · rfl
    · exact absurd ((proceed_worker hpr e he).symm.trans (answers_worker hw)) (by simp)

/-- The counters of the process are those of the log and of the `ProcessJob`s in flight,
    but for the jobs that its claims gave up. -/
structure Counted (P : Finset WorkerId) (t₀ : Tables) (s : State) (m : Metrics) (n : ℕ) :
    Prop where
  inFlight : m.inFlight = ∑ w ∈ P, s.load w
  total : ∀ c, recorded P c s.mysql.store =
    recorded P c t₀ + m.total c + if .dead = c then n else 0

/-- What neither commits nor counts anything. -/
theorem Counted.same {t₀ : Tables} {n : ℕ} (h : Counted P t₀ s m n)
    (hstore : s'.mysql.store = s.mysql.store) (hload : ∑ w ∈ P, s'.load w = ∑ w ∈ P, s.load w) :
    Counted P t₀ s' m n :=
  ⟨h.inFlight.trans hload.symm, fun c => by rw [hstore, h.total]⟩

/-- Nothing is written but by closing a session. -/
theorem Stepped.store_eq {es : List Event} {a : Action} (h : Stepped cfg s a s' es)
    (ha : ∀ sid how, a ≠ .close sid how) : s'.mysql.store = s.mysql.store := by
  rcases h.closings_cases with hnil | ⟨sid, how, _, _, hclose, -⟩
  · exact h.steps.store_eq (by simp [hnil])
  · exact absurd hclose (ha sid how)

/-- Who is to count something is told, if nothing is lost. -/
theorem Kept.told (hk : Kept cfg db) {how : Closing} {k : Closed Answer Op} {y : Conn}
    (hx : db.close sid how = some (db', k)) (hy : db.sessions sid = some y) {es : List Event}
    (hlossless : Lossless P (.closed sid k :: es) = true) (hw : w ∈ P)
    (hop : y.op.worker? = some w) (hcounts : ((answerOf k).bind y.op.counts).isSome) :
    es.any (·.answers w) = true := by
  obtain ⟨x, hx', hcase⟩ := Server.close_cases hx
  obtain rfl := Option.some.inj (hx'.symm.trans hy)
  rcases hcase with ⟨a, -, rfl, -⟩ | ⟨a, -, rfl, -⟩ | ⟨rfl, -⟩
  · have hall := List.all_eq_true.1 hlossless _ List.mem_cons_self
    simpa [hop, hw, Event.answers] using hall
  · obtain ⟨-, _, _, -, -, hwhy, -⟩ := hk.abort hx
    simp [answerOf, hwhy.counts] at hcounts
  · simp [answerOf] at hcounts

section Steps

variable {t₀ : Tables} {es : List Event} {n : ℕ}

theorem Counted.close (h : Counted P t₀ s m n) (hk : Kept cfg s.mysql) (hp : Paired none s)
    {es' : List Event} (hf : Fenced es' s) {how : Closing}
    (hs : Stepped cfg s (.close sid how) s' es) (hlossless : Lossless P es = true) :
    Counted P t₀ s' (m.step P s (.close sid how))
      (n + (s.exhausts P (.close sid how)).toNat) := by
  cases hs with
  | @close _ _ db k s' es hx hd =>
    obtain ⟨y, hy, -⟩ := Server.close_cases hx
    obtain ⟨hin, htotal⟩ := hd.metrics (s := s) (P := P) (m := m) rfl hp hf hy
      fun w hw hop => hk.told hx hy hlossless hw hop
    have hstep : m.step P s (.close sid how) = m.deliver P s sid (answerOf k) := by
      simp [Metrics.step, hx]
    have hgave : s.exhausts P (.close sid how) = gaveUp P s.mysql.store k := by
      simp [State.exhausts, hx]
    have hstore : s'.mysql.store = db.store := hd.steps.1.store_eq (by simp)
    rw [hstep, hgave]
    refine ⟨by have := h.inFlight; omega, fun c => ?_⟩
    -- The log grows by what the commit records, which is counted or given up.
    rw [hstore, hk.records hx hy c, h.total, htotal]
    split_ifs <;> omega

theorem Counted.giveUp (h : Counted P t₀ s m n) (hp : Paired none s) {es' : List Event}
    (hf : Fenced es' s) (hs : Stepped cfg s (.giveUp sid) s' es) :
    Counted P t₀ s' (m.step P s (.giveUp sid)) n := by
  cases hs with
  | @giveUp _ y s' es hy hd =>
    obtain ⟨hin, htotal⟩ := hd.metrics (s := s) (P := P) (m := m) rfl hp hf hy (by simp)
    have hleft : Server.Steps (·.script cfg) s.mysql [] (s.forsake sid y).mysql :=
      forsake_steps sid y
    have hstore : s'.mysql.store = s.mysql.store :=
      (hd.steps.1.store_eq (by simp)).trans (hleft.store_eq (by simp))
    refine ⟨?_, fun c => ?_⟩
    · have := h.inFlight
      simp only [Metrics.step]
      omega
    · rw [hstore, h.total]
      simp [Metrics.step, htotal]

/-- A worker starts with nothing in hand. -/
theorem Counted.startWorker (h : Counted P t₀ s m n)
    (hs : Stepped cfg s (.startWorker w) s' es) : Counted P t₀ s' m n := by
  cases hs with
  | startWorker hw =>
    refine h.same rfl ?_
    have hsum := sum_load P s (s.setWorker w (.start s.mysql.clock)) rfl
    have hself : s.load w = 0 := by simp [State.load, hw]
    have hstart : (Worker.start s.mysql.clock).phase.load = 0 := rfl
    rw [hself, hstart] at hsum
    exact add_right_cancel hsum

theorem Counted.worker (h : Counted P t₀ s m n) {a : WorkerAct}
    (hs : Stepped cfg s (.worker w a) s' es) (hlives : (Action.worker w a).kills P = false) :
    Counted P t₀ s' (m.step P s (.worker w a)) n := by
  cases hs with
  | @worker _ _ x x' fx hw hup hx =>
    have hsum := sum_load P s ((s.affect cfg fx).setWorker w x') rfl
    have hself : s.load w = x.phase.load := by simp [State.load, hw]
    have hstore : ((s.affect cfg fx).setWorker w x').mysql.store = s.mysql.store :=
      (affect_store fx).1
    by_cases hwP : w ∈ P
    · have hcrash : a ≠ .crash := by
        rintro rfl
        simp [Action.kills, hwP] at hlives
      obtain ⟨hin, htotal⟩ := act_metrics (m := m) hx hcrash
      have hstep : m.step P s (.worker w a) = m.act x.phase a := by
        simp [Metrics.step, hwP, hw]
      rw [if_pos hwP, if_pos hwP] at hsum
      rw [hstep]
      refine ⟨by have := h.inFlight; omega, fun c => ?_⟩
      rw [hstore, h.total, htotal]
    · have hstep : m.step P s (.worker w a) = m := by
        simp [Metrics.step, hwP]
      rw [if_neg hwP, if_neg hwP] at hsum
      rw [hstep]
      exact h.same hstore (add_right_cancel hsum)

theorem Counted.step {es' : List Event} {a : Action} (h : Counted P t₀ s m n)
    (hk : Kept cfg s.mysql) (hp : Paired none s) (hf : Fenced es s)
    (hs : Stepped cfg s a s' es') (hlives : a.kills P = false) (hlossless : Lossless P es' = true) :
    Counted P t₀ s' (m.step P s a) (n + (s.exhausts P a).toNat) := by
  cases a with
  | advance d =>
    cases hs
    exact h.same rfl rfl
  | exec sid now =>
    cases hs with
    | exec hx => exact h.same (Server.exec_cases hx).1 rfl
  | close sid how => exact h.close hk hp hf hs hlossless
  | giveUp sid => exact h.giveUp hp hf hs
  | publish sid added ok =>
    have hstore := hs.store_eq (by simp)
    cases hs with
    | publish => exact h.same hstore rfl
    | publishLost => exact h.same hstore rfl
  | startWorker w => exact h.startWorker hs
  | worker w a => exact h.worker hs hlives
  | dispatch | crashDispatcher =>
    have hstore := hs.store_eq (by simp)
    cases hs
    exact h.same hstore rfl
  | createJob | requeueJob =>
    have hstore := hs.store_eq (by simp)
    cases hs <;> exact h.same hstore rfl
  | startDispatcher | stopDispatcher | inject | dropStream =>
    cases hs
    exact h.same rfl rfl

end Steps

/-! ## Runs -/

theorem Metered.run {s₀ : State} {es : List Event} {n : ℕ} (h : Metered cfg P s₀ es s m n) :
    Run cfg s₀ es s := by
  induction h with
  | start => exact .refl
  | step _ hs _ _ ih => exact ih.step hs

theorem Metered.counted {s₀ : State} {es : List Event} {n : ℕ} (h : Metered cfg P s₀ es s m n)
    (h₀ : Initial s₀) : Counted P s₀.mysql.store s m n := by
  induction h with
  | start =>
    refine ⟨?_, fun c => by simp⟩
    simp [State.load, h₀.workers]
  | step h hs hlives hlossless ih =>
    exact ih.step (h.run.kept h₀) (h.run.paired h₀) (h.run.fenced h₀) (step_cases hs) hlives
      hlossless

theorem State.Quiet.load_eq {w : WorkerId} (h : s.Quiet P) (hw : w ∈ P) : s.load w = 0 := by
  cases hx : s.workers w with
  | none => simp [State.load, hx]
  | some x =>
    have hp := h w hw x hx
    cases hphase : x.phase <;> simp_all [State.load, Phase.load, Phase.job?, Phase.processing]

theorem Counted.inFlight_eq {t₀ : Tables} {n : ℕ} (h : Counted P t₀ s m n) (hquiet : s.Quiet P) :
    m.inFlight = 0 :=
  h.inFlight.trans (Finset.sum_eq_zero fun _ hw => hquiet.load_eq hw)

/-- The actions that can be made, one after the other, are those of such a run. -/
def State.steady (cfg : Config) (P : Finset WorkerId) : State → List Action → Bool
  | _, [] => true
  | s, a :: acts =>
    match s.step cfg a with
    | none => s.steady cfg P acts
    | some (s', es) => !a.kills P && Lossless P es && s'.steady cfg P acts

/-- The counters after the actions that can be made, and how many jobs were given up. -/
def State.meter (cfg : Config) (P : Finset WorkerId) : State → Metrics → ℕ → List Action →
    Metrics × ℕ
  | _, m, n, [] => (m, n)
  | s, m, n, a :: acts =>
    match s.step cfg a with
    | none => s.meter cfg P m n acts
    | some (s', _) => s'.meter cfg P (m.step P s a) (n + (s.exhausts P a).toNat) acts

theorem Metered.play {s₀ : State} {es : List Event} {n : ℕ} (h : Metered cfg P s₀ es s m n)
    (acts : List Action) (hsteady : s.steady cfg P acts = true) :
    Metered cfg P s₀ (es ++ (s.play cfg acts).2) (s.play cfg acts).1 (s.meter cfg P m n acts).1
      (s.meter cfg P m n acts).2 := by
  induction acts generalizing s es m n with
  | nil => simpa [State.play, State.meter] using h
  | cons a acts ih =>
    cases hs : s.step cfg a with
    | none =>
      simp only [State.steady, hs] at hsteady
      simp only [State.play, State.meter, hs]
      exact ih h hsteady
    | some x =>
      obtain ⟨s', es'⟩ := x
      simp only [State.steady, hs, Bool.and_eq_true, Bool.not_eq_true'] at hsteady
      obtain ⟨⟨hlives, hlossless⟩, hsteady⟩ := hsteady
      simp only [State.play, State.meter, hs]
      rw [← List.append_assoc]
      exact ih (h.step hs hlives hlossless) hsteady

end Steps

/-- In every run in which the process of the workers `P` does not crash and loses no result
    of a commit, whenever no `ProcessJob` of it is in progress its counters tell what its
    workers have done by the log, if and only if no claim of it came upon a job whose
    attempts were used up; all but the jobs that are dead are told in every case. -/
theorem counters_agree_iff {cfg : Config} {P : Finset WorkerId} {s₀ s : State} {es : List Event}
    {m : Metrics} {n : ℕ} (h₀ : Initial s₀) (h : Metered cfg P s₀ es s m n) (hquiet : s.Quiet P) :
    (Agrees P s₀.mysql.store s.mysql.store m ↔ n = 0) ∧ m.inFlight = 0 ∧
      ∀ c ≠ .dead, recorded P c s.mysql.store = recorded P c s₀.mysql.store + m.total c := by
  have hc := h.counted h₀
  have hin := hc.inFlight_eq hquiet
  refine ⟨⟨fun hagrees => ?_, fun hn => ⟨hin, fun c => ?_⟩⟩, hin, fun c hne => ?_⟩
  · have := hc.total .dead
    rw [hagrees.total, if_pos rfl] at this
    omega
  · rw [hc.total, hn, ite_self, Nat.add_zero]
  · rw [hc.total, if_neg hne.symm, Nat.add_zero]

/-- The first job is claimed and completed, and counted. -/
theorem counters_agree_iff_first :
    let acts := firstClaim ++ finishing "w" 4 0 .ok
    let s := (State.after acts).1
    let m := (State.fresh.meter (.defaults id) {"w"} {} 0 acts).1
    m.total .attempts = 1 ∧ m.total .completed = 1 ∧ Agrees {"w"} .empty s.mysql.store m :=
  ⟨by decide, by decide, (counters_agree_iff .fresh
    (Metered.start.play (firstClaim ++ finishing "w" 4 0 .ok) (by decide))
    (by decide)).1.2 (by decide)⟩

/-- The handler panics, and the message is recovered once it is idle, in session `n`. -/
def panicking (w : WorkerId) (n now : ℕ) : List Action :=
  [.worker w (.result .panicked), .worker w .recover, .worker w (.read true), .advance 30000000] ++
    claiming w n now

/-- The first job in four attempts, in each of which its handler panics: the claim after them
    declares it dead, and nobody counts it. -/
theorem counters_dead_uncounted : ¬ ∀ (cfg : Config) (P : Finset WorkerId) (s₀ s : State)
    (es : List Event) (m : Metrics) (n : ℕ), Initial s₀ → Metered cfg P s₀ es s m n →
    s.Quiet P → Agrees P s₀.mysql.store s.mysql.store m := by
  intro h
  have hfirst := h (.defaults id) {"w"} .fresh _ _ _ _ .fresh (Metered.start.play
    (firstClaim ++ panicking "w" 4 30000000 ++ panicking "w" 5 60000000 ++
      panicking "w" 6 90000000 ++ panicking "w" 7 120000000) (by decide)) (by decide)
  exact absurd (hfirst.total .dead) (by decide)

end ScaleQueue
