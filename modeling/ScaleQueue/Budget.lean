import ScaleQueue.Fences

/-!
# Attempts are budgeted

The budget of a job is checked twice, by `Claim` against the row and by
`ProcessJob` against the job it holds. What `Finish` is called with goes back to
the result of the handler (`Settled`), and the row is in the attempt of the job
(`Run.finish`), so both checks see the same count.
-/

namespace ScaleQueue

open Locking

/-- The attempt at `j`, in the `n`th call of `handle`, has had the result `r`. -/
def Yielded (es : List Event) (w : WorkerId) (n : ℕ) (j : Job) (r : Result) : Prop :=
  j.type ∉ registry ∧ r = unregistered j.type ∨ .returned w n j r ∈ es

/-- `Finish` was called with what `ProcessJob` decided on the result of the attempt. -/
def Decided (es : List Event) (j : Job) (e : Ending) (message : String) (delay : ℕ) : Prop :=
  ∃ w n r jitter, Yielded es w n j r ∧ outcome j r jitter = some (e, message, delay)

theorem Yielded.append {es : List Event} {w : WorkerId} {n : ℕ} {j : Job} {r : Result}
    (h : Yielded es w n j r) (es' : List Event) : Yielded (es ++ es') w n j r :=
  h.imp_right fun h => List.mem_append_left _ h

theorem Decided.append {es : List Event} {j : Job} {e : Ending} {message : String} {delay : ℕ}
    (h : Decided es j e message delay) (es' : List Event) :
    Decided (es ++ es') j e message delay := by
  obtain ⟨w, n, r, jitter, hr, ho⟩ := h
  exact ⟨w, n, r, jitter, hr.append es', ho⟩

/-- Results are those of handlers, and outcomes are decided on results. -/
structure Settled (es : List Event) (s : State) : Prop where
  result : ∀ w x h j r b, s.workers w = some x → x.phase = .running h j (some r) b →
    Yielded es w h.number j r
  session : ∀ sid y j e message delay, s.mysql.sessions sid = some y →
    y.op = .finish j e message delay → Decided es j e message delay

section Steps

variable {cfg : Config} {s s' : State} {w : WorkerId} {sid : Sid}

theorem Acted.yielded {x x' : Worker} {fx : Effects} {es : List Event} (hx : Acted s w x x' fx)
    (hold : ∀ h j r b, x.phase = .running h j (some r) b → Yielded es w h.number j r)
    {h : Handle} {j : Job} {r : Result} {b : Beat} (hp : x'.phase = .running h j (some r) b) :
    Yielded (es ++ fx.events) w h.number j r := by
  cases hx with
  | same hp' => exact (hold h j r b (hp' ▸ hp)).append _
  | delivered _ _ hp' => simp [hp'] at hp
  | malformed _ _ hp' => simp [hp'] at hp
  | ticked hx _ hp' =>
    obtain ⟨rfl, rfl, rfl, rfl⟩ : _ ∧ _ ∧ _ ∧ _ := by simpa [hp'] using hp
    exact (hold _ _ _ _ hx).append _
  | result _ _ hp' _ _ _ he =>
    obtain ⟨rfl, rfl, rfl, rfl⟩ : _ ∧ _ ∧ _ ∧ _ := by simpa [hp'] using hp
    exact .inr (by simp [he])
  | panicked _ hp' => simp [hp'] at hp
  | retained _ _ hp' => simp [hp'] at hp
  | settled _ _ _ hp' => simp [hp'] at hp
  | acked _ hp' => simp [hp'] at hp
  | abandoned _ hp' =>
    cases hx : x.phase with
    | running h' j' r' b' =>
      rw [hp', hx] at hp
      cases hp
      exact (hold _ _ _ _ hx).append _
    | _ => rw [hp', hx] at hp; cases hp
  | crashed hp' => simp [hp'] at hp

theorem Told.yielded {x x' : Worker} {fx : Effects} {es es' : List Event} {a : Option Answer}
    (hx : Told w sid a x x' fx)
    (hold : ∀ h j r b, x.phase = .running h j (some r) b → Yielded es w h.number j r)
    {h : Handle} {j : Job} {r : Result} {b : Beat} (hp : x'.phase = .running h j (some r) b) :
    Yielded (es ++ es') w h.number j r := by
  cases hx with
  | claimed _ _ _ hp' => simp [hp'] at hp
  | unregistered _ _ hreg hp' =>
    obtain ⟨rfl, rfl, rfl, rfl⟩ : _ ∧ _ ∧ _ ∧ _ := by simpa [hp'] using hp
    exact .inl ⟨hreg, rfl⟩
  | nothing _ _ hp' => simp [hp'] at hp
  | unclaimed _ _ _ hp' => simp [hp'] at hp
  | finished _ _ _ hp' => simp [hp'] at hp
  | unfinished _ _ _ hp' => simp [hp'] at hp
  | renewed hx _ hp' =>
    obtain ⟨rfl, rfl, rfl, rfl⟩ : _ ∧ _ ∧ _ ∧ _ := by simpa [hp'] using hp
    exact (hold _ _ _ _ hx).append _
  | unrenewed hx _ hp' =>
    obtain ⟨rfl, rfl, rfl, rfl⟩ : _ ∧ _ ∧ _ ∧ _ := by simpa [hp'] using hp
    exact (hold _ _ _ _ hx).append _

theorem Settled.step {es es' : List Event} {a : Action} (h : Settled es s) (hp : Paired none s)
    (hs : Stepped cfg s a s' es') : Settled (es ++ es') s' := by
  constructor
  · intro w x' h' j r b hw hphase
    have hold {x : Worker} (hw : s.workers w = some x) (h' : Handle) (j : Job) (r : Result)
        (b : Beat) (hx : x.phase = .running h' j (some r) b) : Yielded es w h'.number j r :=
      h.result w x h' j r b hw hx
    cases hs.turn hw with
    | idle hw => exact (hold hw _ _ _ _ hphase).append _
    | started _ hx =>
      subst hx
      cases hphase
    | acted hw' hx => exact hx.yielded (hold hw') hphase
    | told _ hw' hx => exact hx.yielded (hold hw') hphase
    | lost hw' hx => exact hx.yielded (hold hw') hphase
  · intro sid y j e message delay hy hop
    cases hs.continues hp hy with
    | stays hy' hop' => exact (h.session sid _ _ _ _ _ hy' (hop' ▸ hop)).append _
    | runs _ hy' hop' => exact (h.session sid _ _ _ _ _ hy' (hop' ▸ hop)).append _
    | answered hy' hop' => exact (h.session sid _ _ _ _ _ hy' (hop' ▸ hop)).append _
    | opened _ _ _ hby =>
      rw [hop] at hby
      generalize sid.party = p at hby
      cases hby with
      | finish hw hx hout => exact ⟨_, _, _, _, (h.result _ _ _ _ _ _ hw hx).append _, hout⟩

theorem Run.settled {s₀ : State} {es : List Event} (h : Run cfg s₀ es s) (h₀ : Initial s₀) :
    Settled es s := by
  induction h with
  | refl => exact ⟨by simp [h₀.workers], by simp [h₀.sessions]⟩
  | step h hs ih => exact ih.step (h.paired h₀) (step_cases hs)

/-- What a committed `Finish` was called with. -/
theorem Run.decided {s₀ : State} {es : List Event} (h : Run cfg s₀ es s) (h₀ : Initial s₀)
    {how : Closing} {db : MySQL} {j : Job} {e : Ending} {message : String} {delay : ℕ} {a : Answer}
    (hc : s.mysql.close sid how = some (db, .committed (.finish j e message delay) a)) :
    Decided es j e message delay := by
  obtain ⟨y, hy, hop, -⟩ := commit_session hc
  exact (h.settled h₀).session sid y j e message delay hy hop

/-! ## Both checks -/

/-- The budget of a job, as its row stands after the events. -/
structure Budgeted (es : List Event) (id : JobId) (r : JobRow) : Prop where
  /-- A job is only declared dead for a permanent failure, or after its last attempt. -/
  dead : r.status = .dead →
    claimsIn r.generation (history id (closings es)) = r.maxRetries + 1 ∨
    ∃ j, (claims (history id (closings es))).getLast? = some j ∧ j.generation = r.generation ∧
      (j.type ∉ registry ∨ ∃ w n message, .returned w n j (.failed message true) ∈ es)
  pending : r.status = .pending → r.attemptCount < r.maxRetries + 1
  accepted : ∃ j, (.createJob j, .done) ∈ history id (closings es) ∧
    r.maxRetries = j.input.maxRetries

/-- What decides for `DEAD` is a permanent failure, or the last attempt. -/
theorem outcome_dead {j : Job} {r : Result} {jitter : ℕ} {message : String} {delay : ℕ}
    (h : outcome j r jitter = some (.dead, message, delay)) :
    j.maxRetries + 1 ≤ j.attemptCount ∨ ∃ m, r = .failed m true := by
  cases r with
  | ok => simp [outcome] at h
  | failed m permanent =>
    simp only [outcome, Option.some.injEq, Prod.mk.injEq, ite_eq_left_iff, reduceCtorEq,
      imp_false, not_not] at h
    rcases h.1 with rfl | hle
    · exact .inr ⟨m, rfl⟩
    · exact .inl hle
  | panicked => simp [outcome] at h

/-- A retry is decided on only when attempts are left. -/
theorem outcome_pending {j : Job} {r : Result} {jitter : ℕ} {message : String} {delay : ℕ}
    (h : outcome j r jitter = some (.pending, message, delay)) :
    j.attemptCount < j.maxRetries + 1 := by
  cases r with
  | ok => simp [outcome] at h
  | failed m permanent =>
    simp only [outcome, Option.some.injEq, Prod.mk.injEq, ite_eq_right_iff, reduceCtorEq,
      imp_false, not_or] at h
    omega
  | panicked => simp [outcome] at h

/-- The claim that nothing has decided since is the last one. -/
theorem claims_getLast? {h₁ h₂ : List (Op × Answer)} {id : JobId} {g : ℕ} {w : WorkerId} {j : Job}
    (h : ∀ x ∈ h₂, decides x = false) :
    (claims (h₁ ++ (.claim id g w, .job j) :: h₂)).getLast? = some j := by
  have : claims h₂ = [] := by
    refine List.filterMap_eq_nil_iff.2 fun x hx => ?_
    have := h x hx
    obtain ⟨op, a⟩ := x
    cases op <;> simp_all [decides, claimed?]
  rw [claims_append, claims_cons, this]
  simp [claimed?]

/-- What is neither a claim nor about a dead or pending row keeps the budget. -/
theorem Budgeted.keep {es es' : List Event} {id : JobId} {r r' : JobRow} {x : Op × Answer}
    (h : Budgeted es id r) (hx : history id (closings es') = [x]) (hclaim : claimed? x = none)
    (hg : r'.generation = r.generation) (hm : r'.maxRetries = r.maxRetries)
    (hs : r'.status = r.status) (ha : r'.attemptCount = r.attemptCount) :
    Budgeted (es ++ es') id r' := by
  have hclaims : claims (history id (closings (es ++ es'))) =
      claims (history id (closings es)) := by
    simp [hx, claims, hclaim]
  refine ⟨fun hd => ?_, fun hp => ?_, ?_⟩
  · have hin : claimsIn r'.generation (history id (closings (es ++ es'))) =
        claimsIn r.generation (history id (closings es)) := by
      rw [claimsIn, hclaims, hg, claimsIn]
    rw [hin, hclaims, hm, hg]
    rcases h.dead (hs ▸ hd) with hall | ⟨j, hl, hgen, hj⟩
    · exact .inl hall
    · refine .inr ⟨j, hl, hgen, hj.imp_right ?_⟩
      rintro ⟨w, n, m, hmem⟩
      exact ⟨w, n, m, List.mem_append_left _ hmem⟩
  · rw [ha, hm]
    exact h.pending (hs ▸ hp)
  · obtain ⟨j, hj, heq⟩ := h.accepted
    exact ⟨j, by simp [hj], hm.trans heq⟩

/-- What adds nothing to the history keeps the budget. -/
theorem Budgeted.quiet {es es' : List Event} {id : JobId} {r : JobRow} (h : Budgeted es id r)
    (hnil : history id (closings es') = []) : Budgeted (es ++ es') id r := by
  have hsame : history id (closings (es ++ es')) = history id (closings es) := by
    rw [closings_append, history_append, hnil, List.append_nil]
  refine ⟨fun hd => ?_, h.pending, hsame ▸ h.accepted⟩
  rw [hsame]
  rcases h.dead hd with hall | ⟨j, hl, hg, hj⟩
  · exact .inl hall
  · refine .inr ⟨j, hl, hg, hj.imp_right ?_⟩
    rintro ⟨w, n, m, hm⟩
    exact ⟨w, n, m, List.mem_append_left _ hm⟩

/-- A decision on an attempt keeps the budget. -/
theorem Run.finish_budgeted {s₀ : State} {es es' : List Event} (h : Run cfg s₀ es s)
    (h₀ : Initial s₀) {how : Closing} {db : MySQL} {j : Job} {e : Ending} {message : String}
    {delay t : ℕ} {r : JobRow}
    (hc : s.mysql.close sid how = some (db, .committed (.finish j e message delay) .done))
    (hhist : history j.id (closings (es ++ es')) =
      history j.id (closings es) ++ [(.finish j e message delay, .done)])
    (hr : s.mysql.store.job? j.id = some r) (htally : Tally 0 (history j.id (closings es)) r)
    (haccepted : ∃ k, (Op.createJob k, Answer.done) ∈ history j.id (closings (es ++ es')) ∧
      r.maxRetries = k.input.maxRetries) :
    Budgeted (es ++ es') j.id (r.finish e.status message delay t) := by
  obtain ⟨⟨q, hq, -, hin⟩, h₁, h₂, heq, hh₂⟩ := h.finish h₀ hc
  obtain rfl := Option.some.inj (hq.symm.trans hr)
  obtain ⟨w, n, result, jitter, hyield, hout⟩ := h.decided h₀ hc
  refine ⟨fun hd => ?_, fun hp => ?_, haccepted⟩
  · have he : e.status = .dead := hd
    obtain rfl : e = .dead := by
      cases e <;> first | rfl | cases he
    rw [hhist, claimsIn_append, claimsIn_other rfl, claims_append,
      show claims [(Op.finish j .dead message delay, Answer.done)] = [] from rfl,
      List.append_nil, Nat.add_zero]
    -- No attempt was left, or the failure is permanent.
    rcases outcome_dead hout with hle | ⟨m, rfl⟩
    · have hatt := htally.attempts
      have hbudget := htally.budget q.generation
      rw [← hin.maxRetries, ← hin.attemptCount] at hle
      simp only [JobRow.finish]
      simp at hatt hbudget
      exact .inl (by omega)
    · refine .inr ⟨j, ?_, hin.generation.symm, hyield.imp And.left fun hm => ?_⟩
      · rw [heq]
        exact claims_getLast? hh₂
      · exact ⟨w, n, m, List.mem_append_left _ hm⟩
  -- A retry was decided on, so an attempt was left.
  · have he : e.status = .pending := hp
    obtain rfl : e = .pending := by
      cases e <;> first | rfl | cases he
    have := outcome_pending hout
    rwa [← hin.maxRetries, ← hin.attemptCount] at this

theorem Run.budgeted {s₀ : State} {es : List Event} (h : Run cfg s₀ es s) (h₀ : Initial s₀)
    {id : JobId} (hnew : s₀.mysql.store.job? id = none) :
    ∀ r, s.mysql.store.job? id = some r → Budgeted es id r := by
  induction h with
  | refl => simp [hnew]
  | @step es es' s s' a h hstep ih =>
    intro r' hr'
    have hs := step_cases hstep
    have hk := h.kept h₀
    have htally := (h.life h₀ id).tally (.none (h₀.sound id) hnew)
    have hr' : (s'.mysql.store.view id).row = some r' := hr'
    rcases hs.view hk id with
      ⟨hsame, hnil⟩ | ⟨sid, how, db, op, a, lo, hi, rfl, hc, hchange, hone, -⟩
    · rw [hsame] at hr'
      exact (ih r' hr').quiet hnil
    have hhist : history id (closings (es ++ es')) = history id (closings es) ++ [(op, a)] := by
      rw [closings_append, history_append, hone]
    generalize hv : s.mysql.store.view id = v at hchange
    generalize hv' : s'.mysql.store.view id = v' at hchange hr'
    have hrow (r : JobRow) (hr : v.row = some r) : s.mysql.store.job? id = some r := by
      rw [← hv] at hr
      exact hr
    rw [hv] at htally
    -- The job was created before, with the same budget.
    have accepted {r : JobRow} (hr : v.row = some r) (hm : r'.maxRetries = r.maxRetries) :
        ∃ j, (Op.createJob j, Answer.done) ∈ history id (closings (es ++ es')) ∧
          r'.maxRetries = j.input.maxRetries := by
      obtain ⟨j, hj, heq⟩ := (ih r (hrow r hr)).accepted
      exact ⟨j, by rw [hhist]; exact List.mem_append_left _ hj, hm.trans heq⟩
    cases hchange with
    | claimed =>
      obtain rfl := Option.some.inj hr'
      exact ⟨by simp [JobRow.claim], by simp [JobRow.claim], accepted rfl rfl⟩
    | @exhausted g owner r _ _ _ _ _ _ _ _ hbudget =>
      obtain rfl := Option.some.inj hr'
      refine ⟨fun _ => .inl ?_, by simp [JobRow.bury], accepted rfl rfl⟩
      have hatt := htally.attempts
      have hle := htally.budget r.generation
      rw [hhist, claimsIn_append, claimsIn_other rfl]
      simp only [JobRow.bury]
      simp at hatt hle
      omega
    | renewed =>
      obtain rfl := Option.some.inj hr'
      exact (ih _ (hrow _ rfl)).keep hone rfl rfl rfl rfl rfl
    | @finished j e message delay r _ _ _ _ _ hid hj he =>
      obtain rfl := Option.some.inj hr'
      subst hj
      exact h.finish_budgeted h₀ hc hhist (hrow _ rfl) htally (accepted rfl rfl)
    | @retried j message delay r _ _ _ _ _ _ hid hj =>
      obtain rfl := Option.some.inj hr'
      subst hj
      exact h.finish_budgeted h₀ hc hhist (hrow _ rfl) htally (accepted rfl rfl)
    | published => exact (ih _ (hrow _ hr')).keep hone rfl rfl rfl rfl rfl
    | dropped => exact (ih _ (hrow _ hr')).keep hone rfl rfl rfl rfl rfl
    | @created j =>
      obtain rfl := Option.some.inj hr'
      refine ⟨by simp [NewJob.row], by simp [NewJob.row], j, ?_, rfl⟩
      rw [hhist]
      exact List.mem_append_right _ List.mem_cons_self
    | requeued =>
      obtain rfl := Option.some.inj hr'
      exact ⟨by simp [JobRow.requeue], by simp [JobRow.requeue], accepted rfl rfl⟩

/-! ## Runs of handlers -/

/-- The handler was called in an attempt of generation `g` of the job. -/
def Event.startsIn (id : JobId) (g : ℕ) : Event → Bool
  | .started _ _ j => j.id = id ∧ j.generation = g
  | _ => false

/-- How often a handler was called for generation `g` of the job. -/
def startsIn (id : JobId) (g : ℕ) (es : List Event) : ℕ := es.countP (·.startsIn id g)

/-- A handler is only called by the step that commits the claim of its job. -/
theorem Stepped.started {a : Action} {es : List Event} (h : Stepped cfg s a s' es)
    (hk : Kept cfg s.mysql) (hp : Paired none s) (id : JobId) (g : ℕ) :
    startsIn id g es ≤ claimsIn g (history id (closings es)) := by
  by_cases hnone : ∀ e ∈ es, e.startsIn id g = false
  · rw [startsIn, List.countP_eq_zero.2 fun e he => by simp [hnone e he]]
    exact Nat.zero_le _
  obtain ⟨e, he, hstart⟩ : ∃ e ∈ es, e.startsIn id g = true := by simpa using hnone
  obtain ⟨w, n, j, rfl⟩ : ∃ w n j, e = .started w n j := by
    cases e <;> simp_all [Event.startsIn]
  obtain ⟨rfl, rfl⟩ : j.id = id ∧ j.generation = g := by simpa [Event.startsIn] using hstart
  obtain ⟨x', hx'⟩ := h.present he rfl
  have hturn := h.turn hx'
  cases hturn with
  | idle _ hno => exact absurd rfl (hno _ he)
  | started => simp at he
  | acted _ hx => cases hx <;> simp_all
  | lost _ hx => cases hx <;> simp_all
  | @told x fx sid how db c _ hc hw hx =>
    cases hx with
    | @claimed h' j' hphase ha hreg hp' hev =>
      obtain ⟨-, rfl⟩ : n = h'.number ∧ j = j' := by simpa [hev] using he
      -- The worker had no job before, so the claim has just committed.
      rcases (h.turn hx').job hk hp (j := j) (by rw [hp']; rfl) with
        ⟨y, hy, hj⟩ | ⟨_, _, _, ha', -, hc'⟩
      · obtain rfl := Option.some.inj (hw.symm.trans hy)
        simp [hphase, Phase.job?] at hj
      · obtain ⟨rfl, rfl⟩ : sid = _ ∧ how = _ := by simpa using ha'
        obtain ⟨-, rfl⟩ := Prod.mk.inj (Option.some.inj (hc.symm.trans hc'))
        simp [startsIn, Event.startsIn, hev, closings, history, committed?, about, claimsIn, claims,
          claimed?]
    | _ => simp_all

theorem Run.started {s₀ : State} {es : List Event} (h : Run cfg s₀ es s) (h₀ : Initial s₀)
    (id : JobId) (g : ℕ) : startsIn id g es ≤ claimsIn g (history id (closings es)) := by
  induction h with
  | refl => exact Nat.zero_le _
  | step h hs ih =>
    rw [closings_append, history_append, claimsIn_append, startsIn, List.countP_append]
    exact Nat.add_le_add ih ((step_cases hs).started (h.kept h₀) (h.paired h₀) id g)

/-- Only an attempt that was interrupted is refused for want of budget. -/
theorem Run.exhausted {s₀ : State} {es : List Event} (h : Run cfg s₀ es s) (h₀ : Initial s₀)
    {id : JobId} (hnew : s₀.mysql.store.job? id = none) {how : Closing} {db : MySQL} {g : ℕ}
    (hc : s.mysql.close sid how = some (db, .committed (.claim id g w) (.noJob .exhausted))) :
    ∃ r, s.mysql.store.job? id = some r ∧ r.status = .processing := by
  have hcovered := (h.life h₀ id).covered (h₀.sound id) (by simp [Tables.view, hnew])
  obtain ⟨lo, hi, hchange, -⟩ := (h.kept h₀).changes hc rfl
  generalize hv : s.mysql.store.view id = v at hchange hcovered
  generalize db.store.view id = v' at hchange
  cases hchange with
  | @exhausted _ _ r _ _ _ _ _ _ _ hr hbudget =>
    have hrow : s.mysql.store.job? id = some r := congrArg JobView.row hv
    refine ⟨r, hrow, ?_⟩
    cases hst : r.status with
    | processing => rfl
    | pending => exact absurd ((h.budgeted h₀ hnew r hrow).pending hst) (Nat.not_lt.2 hbudget)
    | failed => exact absurd hst (hcovered r rfl).not_failed
    | completed => exact absurd (.inl hst) hr.live
    | dead => exact absurd (.inr hst) hr.live

end Steps

/-! ## The budget -/

/-- In every run, each generation of a job that was created in it has at most
    `max_retries + 1` claims, and at most as many calls of a handler; the row counts
    the claims of its generation; a job is dead for a permanent failure of its
    last attempt (or without a handler), or after all its attempts; and a pending
    job has an attempt left, so that `Claim` only refuses an interrupted one. -/
theorem attempt_budget {cfg : Config} {s₀ s : State} {es : List Event} (h₀ : Initial s₀)
    (h : Run cfg s₀ es s) {id : JobId} (hnew : s₀.mysql.store.job? id = none) {r : JobRow}
    (hr : s.mysql.store.job? id = some r) :
    (∃ j, (.createJob j, .done) ∈ history id (closings es) ∧
      r.maxRetries = j.input.maxRetries) ∧
    (∀ g, claimsIn g (history id (closings es)) ≤ r.maxRetries + 1 ∧
      startsIn id g es ≤ claimsIn g (history id (closings es))) ∧
    r.attemptCount = claimsIn r.generation (history id (closings es)) ∧
    (r.status = .dead →
      claimsIn r.generation (history id (closings es)) = r.maxRetries + 1 ∨
      ∃ j, (claims (history id (closings es))).getLast? = some j ∧ j.generation = r.generation ∧
        (j.type ∉ registry ∨ ∃ w n message, .returned w n j (.failed message true) ∈ es)) ∧
    (r.status = .pending → r.attemptCount < r.maxRetries + 1) ∧
    ∀ sid how db g w,
      s.mysql.close sid how = some (db, .committed (.claim id g w) (.noJob .exhausted)) →
      r.status = .processing := by
  have hb := h.budgeted h₀ hnew r hr
  have ht := h.tally h₀ hnew hr
  refine ⟨hb.accepted, fun g => ⟨ht.claims_le g, h.started h₀ id g⟩, ht.attempts_eq, hb.dead,
    hb.pending, ?_⟩
  · intro sid how db g w hc
    obtain ⟨q, hq, hst⟩ := h.exhausted h₀ hnew hc
    rwa [Option.some.inj (hr.symm.trans hq)]

/-- The first job fails for good in its first attempt. -/
theorem attempt_budget_first :
    let run := State.after (firstClaim ++ finishing "w" 4 0 (.failed "no" true))
    ∃ r, run.1.mysql.store.job? firstJob = some r ∧ r.status = .dead ∧
      ∀ g, claimsIn g (history firstJob (closings run.2)) ≤ r.maxRetries + 1 ∧
        startsIn firstJob g run.2 ≤ claimsIn g (history firstJob (closings run.2)) :=
  ⟨_, rfl, by decide, (attempt_budget .fresh (Run.play _ _ _) rfl rfl).2.1⟩

end ScaleQueue
