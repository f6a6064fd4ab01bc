import ScaleQueue.Audit

/-!
# The error message of a job

`Finish` is called with one text, which it writes into the log entry of the outcome and,
unless it is empty, into `error_msg`. A requeue clears the column, `Claim` fills it when it
gives a job up, and nothing else writes it. So it tells whether the latest outcome of the
generation was a failure (`JobRow.Blames`), except for the outcome that is none:
`ProcessJob` has a text for a completed job, too (`error_msg_iff`).
-/

namespace ScaleQueue

open Locking

/-- The outcome of an attempt, if the entry records one. -/
def LogRow.ending? (l : LogRow) : Option Ending :=
  match l.fromStatus, l.toStatus with
  | _, .completed => some .completed
  | _, .dead => some .dead
  | some .processing, .pending => some .pending
  | _, _ => none

/-- The latest outcome that was recorded in the current generation. -/
def latestEnding (logs : List LogRow) : Option Ending :=
  ((sinceRequeue logs).filterMap (·.ending?)).getLast?

/-- `error_msg` is set if and only if the latest outcome of the current generation was a
    failure: a scheduled retry, or the end of the job. -/
def JobRow.Blames (r : JobRow) (logs : List LogRow) : Prop :=
  r.errorMsg ≠ none ↔ latestEnding logs = some .pending ∨ latestEnding logs = some .dead

instance (r : JobRow) (logs : List LogRow) : Decidable (r.Blames logs) :=
  inferInstanceAs (Decidable (_ ↔ _))

/-- What `error_msg` tells of the log: nothing wrong, unless the job is completed. -/
structure Reported (logs : List LogRow) (r : JobRow) : Prop where
  completed : r.status = .completed → latestEnding logs = some .completed ∧ r.errorMsg ≠ none
  blames : r.status ≠ .completed → r.Blames logs

/-- The error that a handler returned has a text, if it returned one. -/
def Event.worded : Event → Bool
  | .returned _ _ _ (.failed message _) => message ≠ ""
  | _ => true

@[simp] theorem latestEnding_nil : latestEnding [] = none := rfl

/-- A requeue starts anew, and the entry of an outcome is the latest. -/
theorem latestEnding_append (logs : List LogRow) (l : LogRow) : latestEnding (logs ++ [l]) =
    if l.requeues then none else l.ending?.or (latestEnding logs) := by
  cases hl : l.requeues with
  | true =>
    rw [latestEnding, sinceRequeue, List.rtakeWhile_concat_neg _ _ _ (by simp [hl])]
    rfl
  | false =>
    rw [latestEnding, sinceRequeue, List.rtakeWhile_concat_pos _ _ _ (by simp [hl]),
      ← sinceRequeue, List.filterMap_append, List.getLast?_append, latestEnding]
    cases hend : l.ending? <;> simp [hend]

section Steps

variable {cfg : Config} {s₀ s : State} {es : List Event} {id : JobId}

/-- A failure that is recorded with its message. -/
theorem Reported.failed {logs : List LogRow} {r : JobRow} {l : LogRow} (hl : l.requeues = false)
    (hend : l.ending? = some .pending ∨ l.ending? = some .dead) (hst : r.status ≠ .completed)
    (hmsg : r.errorMsg ≠ none) : Reported (logs ++ [l]) r := by
  refine ⟨fun hc => absurd hc hst, fun _ => ?_⟩
  rw [JobRow.Blames, latestEnding_append, hl]
  rcases hend with hend | hend <;> simp [hend, hmsg]

/-- What is no outcome leaves the column alone. -/
theorem Reported.keep {logs logs' : List LogRow} {r r' : JobRow} (h : Reported logs r)
    (hlatest : latestEnding logs' = latestEnding logs) (hmsg : r'.errorMsg = r.errorMsg)
    (hst : r.status ≠ .completed) (hst' : r'.status ≠ .completed) : Reported logs' r' := by
  refine ⟨fun hc => absurd hc hst', fun _ => ?_⟩
  rw [JobRow.Blames, hlatest, hmsg]
  exact h.blames hst

theorem Change.reported {lease : ℕ} {lo hi : Env} {op : Op} {a : Answer} {v v' : JobView}
    (hc : Change lease id lo hi op a v v') (hs : v.Sound)
    (hfailed : ∀ r ∈ v.row, r.status ≠ .failed)
    (hmessage : ∀ j e message delay, op = .finish j e message delay → message ≠ "")
    (hv : ∀ r ∈ v.row, Reported v.logs r) : ∀ r ∈ v'.row, Reported v'.logs r := by
  intro r' hr'
  cases hc with
  | @claimed _ _ r _ _ _ _ _ _ _ hr =>
    obtain rfl := Option.some.inj hr'
    refine (hv _ rfl).keep ?_ rfl (fun hst => hr.live (.inl hst)) (by simp [JobRow.claim])
    simp [latestEnding_append, LogRow.requeues, LogRow.ending?]
  | exhausted =>
    obtain rfl := Option.some.inj hr'
    exact .failed (by simp [LogRow.requeues]) (.inr (by simp [LogRow.ending?]))
      (by simp [JobRow.bury]) (by simp [JobRow.bury])
  | renewed _ _ hown =>
    obtain rfl := Option.some.inj hr'
    obtain ⟨-, hst, -⟩ := ownedBy_iff.1 hown
    exact (hv _ rfl).keep rfl rfl (by simp [hst]) (by simp [JobRow.renew, hst])
  | @finished j e message delay _ _ _ _ _ _ _ _ he =>
    obtain rfl := Option.some.inj hr'
    have hne := hmessage j e message delay rfl
    cases e with
    | completed =>
      refine ⟨fun _ => ⟨?_, by simp [JobRow.finish, hne]⟩, fun hst => absurd rfl hst⟩
      simp [latestEnding_append, LogRow.requeues, LogRow.ending?, Ending.status]
    | pending => exact absurd rfl he
    | dead =>
      exact .failed (by simp [LogRow.requeues]) (.inr (by simp [LogRow.ending?, Ending.status]))
        (by simp [JobRow.finish, Ending.status]) (by simp [JobRow.finish, hne])
  | @retried j message delay =>
    obtain rfl := Option.some.inj hr'
    have hne := hmessage j .pending message delay rfl
    exact .failed (by simp [LogRow.requeues]) (.inl (by simp [LogRow.ending?]))
      (by simp [JobRow.finish]) (by simp [JobRow.finish, hne])
  | published => exact hv _ hr'
  | dropped => exact hv _ hr'
  | created =>
    obtain rfl := Option.some.inj hr'
    obtain ⟨rfl, -⟩ := hs.absent rfl
    refine ⟨fun hst => ?_, fun _ => ?_⟩
    · simp [NewJob.row] at hst
    · rw [JobRow.Blames, latestEnding_append]
      simp [NewJob.row, LogRow.requeues, LogRow.ending?]
  | @requeued r _ _ _ _ _ _ _ _ hstatus =>
    obtain rfl := Option.some.inj hr'
    have hst : r.status = .dead := hstatus.resolve_right (hfailed _ rfl)
    refine ⟨fun hst => ?_, fun _ => ?_⟩
    · simp [JobRow.requeue] at hst
    · simp [JobRow.Blames, JobRow.requeue, latestEnding_append, LogRow.requeues, hst]

/-- The text that `Finish` is called with is not empty, if those of the handlers are not. -/
theorem Decided.message_ne {j : Job} {e : Ending} {message : String} {delay : ℕ}
    (h : Decided es j e message delay)
    (htexts : ∀ e ∈ es, e.worded = true) : message ≠ "" := by
  obtain ⟨w, n, r, jitter, hr, hout⟩ := h
  cases r with
  | ok =>
    obtain ⟨-, rfl, -⟩ : _ ∧ _ ∧ _ := by simpa [outcome] using hout
    decide
  | failed text permanent =>
    obtain ⟨-, rfl, -⟩ : _ ∧ text = message ∧ _ := by simpa [outcome] using hout
    rcases hr with ⟨-, heq⟩ | hmem
    · cases heq
      simp [← String.toList_inj]
    · exact of_decide_eq_true (htexts _ hmem)
  | panicked => simp [outcome] at hout

theorem Run.reported (h : Run cfg s₀ es s) (h₀ : Initial s₀)
    (htexts : ∀ e ∈ es, e.worded = true) (hnew : s₀.mysql.store.job? id = none) :
    ∀ r ∈ (s.mysql.store.view id).row, Reported (s.mysql.store.view id).logs r := by
  induction h with
  | refl => simp [Tables.view, hnew]
  | step h hs ih =>
    have hk := h.kept h₀
    have htexts' := fun e he => htexts e (List.mem_append_left _ he)
    rcases (step_cases hs).view hk id with ⟨hsame, -⟩ | ⟨_, _, _, _, _, _, _, -, hclose, hchange, -⟩
    · rw [hsame]
      exact ih htexts'
    · have hcovered := (h.life h₀ id).covered (h₀.sound id) (by simp [Tables.view, hnew])
      refine hchange.reported (hk.sound id) (fun r hr => (hcovered r hr).not_failed) ?_ (ih htexts')
      rintro j e message delay rfl
      exact (h.decided h₀ hclose).message_ne htexts'

end Steps

/-! ## The column -/

/-- In every run in which the errors of handlers have texts, `error_msg` of a job that was
    created in it tells whether the latest outcome of the generation was a failure, if and
    only if the job is not completed. -/
theorem error_msg_iff {cfg : Config} {s₀ s : State} {es : List Event} (h₀ : Initial s₀)
    (h : Run cfg s₀ es s) (htexts : ∀ e ∈ es, e.worded = true) {id : JobId}
    (hnew : s₀.mysql.store.job? id = none) {r : JobRow} (hr : s.mysql.store.job? id = some r) :
    r.Blames (s.mysql.store.logsOf id) ↔ r.status ≠ .completed := by
  have hreported : Reported (s.mysql.store.logsOf id) r := h.reported h₀ htexts hnew r hr
  refine ⟨fun hblames hst => ?_, hreported.blames⟩
  obtain ⟨hlatest, hmsg⟩ := hreported.completed hst
  simpa [hlatest] using hblames.1 hmsg

/-- The first job is put back, for a reason. -/
theorem error_msg_iff_first :
    let s := (State.after (firstClaim ++ finishing "w" 4 0 (.failed "no" false))).1
    ∃ r, s.mysql.store.job? firstJob = some r ∧ r.errorMsg = some "no" ∧
      r.Blames (s.mysql.store.logsOf firstJob) := by
  have hall : (State.after (firstClaim ++ finishing "w" 4 0 (.failed "no" false))).2.all
      (·.worded) = true := by decide
  exact ⟨_, rfl, rfl, (error_msg_iff .fresh (Run.play _ _ _) (List.all_eq_true.1 hall) rfl rfl).2
    (by decide)⟩

/-- Completed, the first job is left with an error message. -/
theorem error_msg_completed : ¬ ∀ (cfg : Config) (s₀ s : State) (es : List Event), Initial s₀ →
    Run cfg s₀ es s → (∀ e ∈ es, e.worded = true) → ∀ id, s₀.mysql.store.job? id = none →
    ∀ r, s.mysql.store.job? id = some r → r.Blames (s.mysql.store.logsOf id) := by
  intro h
  have hall : (State.after (firstClaim ++ finishing "w" 4 0 .ok)).2.all (·.worded) = true := by
    decide
  refine absurd (h _ _ _ _ .fresh (Run.play (.defaults id) .fresh _) (List.all_eq_true.1 hall)
    firstJob rfl _ rfl) ?_
  decide

end ScaleQueue
