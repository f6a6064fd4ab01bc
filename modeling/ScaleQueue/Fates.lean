import ScaleQueue.Audit
import ScaleQueue.Handlers

/-!
# What becomes of jobs

In the runs that the registered handlers have (`HandledRun`), the fate of a job is decided
when it is accepted: its type and its payload say how each of its attempts ends that is not
interrupted (`JobRow.verdict`). A handler that was interrupted says so in its result, but
this result is never persisted: `ProcessJob` sees that the context is cancelled, or that
the heartbeat has failed.

The payload that a handler reads is what the database returns for the one that the API
accepted: `stored` is a parameter.
-/

namespace ScaleQueue

open Locking

/-! ## Runs of the registered handlers -/

/-- What a handler makes of the job. -/
def Job.verdict (stored : Json → Json) (j : Job) : Result :=
  ScaleQueue.verdict j.type (stored j.payload)

/-- What the handler for the job makes of its payload, as it is `stored`. -/
def JobRow.verdict (stored : Json → Json) (r : JobRow) : Result :=
  ScaleQueue.verdict r.type (stored r.payload)

/-- The results in the events are those of the registered handlers, whose context is
    cancelled with that of the call of `handle`, or by the heartbeat. -/
def Honest (stored : Json → Json) (s : State) (es : List Event) : Prop :=
  ∀ w n j r x h b, .returned w n j r ∈ es → s.workers w = some x →
    x.phase = .running h j none b → Ends (h.done || b = .failed) (j.verdict stored) r

/-- The runs in which the registered handlers run. -/
inductive HandledRun (cfg : Config) (stored : Json → Json) (s₀ : State) :
    List Event → State → Prop
  | refl : HandledRun cfg stored s₀ [] s₀
  | step {es es' : List Event} {s s' : State} {a : Action} : HandledRun cfg stored s₀ es s →
      s.step cfg a = some (s', es') → Honest stored s es' →
      HandledRun cfg stored s₀ (es ++ es') s'

theorem HandledRun.run {cfg : Config} {stored : Json → Json} {s₀ s : State} {es : List Event}
    (h : HandledRun cfg stored s₀ es s) : Run cfg s₀ es s := by
  induction h with
  | refl => exact .refl
  | step _ hs _ ih => exact ih.step hs

/-- A result that is not the verdict comes from a cancelled context; and `Finish` is called
    with what is decided on the verdict. -/
structure Ruled (stored : Json → Json) (s : State) : Prop where
  result : ∀ w x h j r b, s.workers w = some x → x.phase = .running h j (some r) b →
    r = j.verdict stored ∨ h.done = true ∨ b = .failed
  session : ∀ sid y j e message delay, s.mysql.sessions sid = some y →
    y.op = .finish j e message delay →
    ∃ jitter, outcome j (j.verdict stored) jitter = some (e, message, delay)

section Steps

variable {cfg : Config} {stored : Json → Json} {s s' : State} {w : WorkerId} {sid : Sid}

theorem Acted.ruled {x x' : Worker} {fx : Effects} (hx : Acted s w x x' fx)
    (hold : ∀ h j r b, x.phase = .running h j (some r) b →
      r = j.verdict stored ∨ h.done = true ∨ b = .failed)
    (hrun : ∀ h j r b, x.phase = .running h j none b → .returned w h.number j r ∈ fx.events →
      Ends (h.done || b = .failed) (j.verdict stored) r)
    {h : Handle} {j : Job} {r : Result} {b : Beat} (hp : x'.phase = .running h j (some r) b) :
    r = j.verdict stored ∨ h.done = true ∨ b = .failed := by
  cases hx with
  | same hp' => exact hold h j r b (hp' ▸ hp)
  | delivered _ _ hp' => simp [hp'] at hp
  | malformed _ _ hp' => simp [hp'] at hp
  | ticked hx hlive hp' =>
    obtain ⟨rfl, rfl, rfl, rfl⟩ : _ ∧ _ ∧ _ ∧ _ := by simpa [hp'] using hp
    exact .inl ((hold _ _ _ _ hx).resolve_right (by simp [hlive]))
  | result hx _ hp' _ _ _ he =>
    obtain ⟨rfl, rfl, rfl, rfl⟩ : _ ∧ _ ∧ _ ∧ _ := by simpa [hp'] using hp
    cases hrun _ _ _ _ hx (by rw [he]; exact List.mem_singleton_self _) with
    | checked => exact .inl rfl
    | interrupted _ hcancelled => exact .inr (by simpa using hcancelled)
  | panicked _ hp' => simp [hp'] at hp
  | retained _ _ hp' => simp [hp'] at hp
  | settled _ _ _ hp' => simp [hp'] at hp
  | acked _ hp' => simp [hp'] at hp
  | abandoned _ hp' =>
    cases hx : x.phase with
    | running h' j' r' b' =>
      rw [hp', hx] at hp
      cases hp
      exact .inr (.inl rfl)
    | _ => rw [hp', hx] at hp; cases hp
  | crashed hp' => simp [hp'] at hp

theorem Told.ruled {x x' : Worker} {fx : Effects} {a : Option Answer} (hx : Told w sid a x x' fx)
    (hold : ∀ h j r b, x.phase = .running h j (some r) b →
      r = j.verdict stored ∨ h.done = true ∨ b = .failed)
    {h : Handle} {j : Job} {r : Result} {b : Beat} (hp : x'.phase = .running h j (some r) b) :
    r = j.verdict stored ∨ h.done = true ∨ b = .failed := by
  cases hx with
  | claimed _ _ _ hp' => simp [hp'] at hp
  | unregistered _ _ hreg hp' =>
    obtain ⟨rfl, rfl, rfl, rfl⟩ : _ ∧ _ ∧ _ ∧ _ := by simpa [hp'] using hp
    exact .inl (verdict_of_unregistered hreg _).symm
  | nothing _ _ hp' => simp [hp'] at hp
  | unclaimed _ _ _ hp' => simp [hp'] at hp
  | finished _ _ _ hp' => simp [hp'] at hp
  | unfinished _ _ _ hp' => simp [hp'] at hp
  | renewed hx _ hp' =>
    obtain ⟨rfl, rfl, rfl, rfl⟩ : _ ∧ _ ∧ _ ∧ _ := by simpa [hp'] using hp
    exact (hold _ _ _ _ hx).imp_right fun h => .inl (h.resolve_right (by simp))
  | unrenewed _ _ hp' =>
    obtain ⟨rfl, rfl, rfl, rfl⟩ : _ ∧ _ ∧ _ ∧ _ := by simpa [hp'] using hp
    exact .inr (.inr rfl)

/-- A session of a worker is opened by a step of it. -/
theorem Stepped.opener {a : Action} {es : List Event} {y : Conn} (hs : Stepped cfg s a s' es)
    (hnew : s.mysql.sessions sid = none) (hy : s'.mysql.sessions sid = some y)
    (hparty : sid.party = .worker w) :
    ∃ x x' fx, s.workers w = some x ∧ Acted s w x x' fx ∧ fx.opens = some (.worker w, y.op) := by
  have effect {t : State} (fx : Effects) (ht : ∀ y, t.mysql.sessions sid = some y →
      ∃ y', s.mysql.sessions sid = some y') (hy : (t.affect cfg fx).mysql.sessions sid = some y) :
      fx.opens = some (.worker w, y.op) := by
    rcases affect_opens fx hy with ⟨y', hy'⟩ | ⟨p, op, ho, hsid, rfl⟩
    · obtain ⟨y'', hy''⟩ := ht y' hy'
      exact absurd (hnew.symm.trans hy'') (by simp)
    · obtain rfl : p = .worker w := by rw [← hparty, hsid]
      exact ho
  -- Nobody else opens a session of a worker.
  have answered {t : State} {sid' : Sid} {b : Option Answer} {es' : List Event}
      (hd : Delivered cfg t sid' b s' es') (ht : ∀ y, t.mysql.sessions sid = some y →
        ∃ y', s.mysql.sessions sid = some y') : False := by
    cases hd with
    | nobody =>
      obtain ⟨y', hy'⟩ := ht y hy
      exact absurd (hnew.symm.trans hy') (by simp)
    | dispatcher =>
      obtain ⟨y', hy'⟩ := ht y hy
      exact absurd (hnew.symm.trans hy') (by simp)
    | worker _ _ hx =>
      have := effect _ ht hy
      simp [(returned_effects hx).1] at this
    | call _ _ _ hp =>
      have := effect _ ht hy
      cases proceed_cases hp <;> simp at this
  have same : ∀ y, s.mysql.sessions sid = some y → ∃ y', s.mysql.sessions sid = some y' :=
    fun y hy => ⟨y, hy⟩
  have ne {sid' : Sid} {x : Conn} (hx : s.mysql.sessions sid' = some x) : sid ≠ sid' := by
    rintro rfl
    exact absurd (hnew.symm.trans hx) (by simp)
  cases hs with
  | @worker w' _ _ _ _ hw _ hx =>
    have ho := effect _ same hy
    obtain rfl : w' = w := by
      have hacted := act_cases hx
      cases hacted <;> simp_all
    exact ⟨_, _, _, hw, act_cases hx, ho⟩
  | @exec sid' _ _ hm =>
    obtain ⟨x, keys, z, hx, -, -, -, rfl, -⟩ := Server.exec_inv hm
    exact absurd hy (by simp [Server.goOn, Function.update_of_ne (ne hx), hnew])
  | @close sid' _ db _ _ _ hm hd =>
    refine (answered hd fun y hy => ⟨y, ?_⟩).elim
    have hy : db.sessions sid = some y := hy
    rw [close_sessions hm] at hy
    by_cases hsid : sid = sid'
    · simp [hsid] at hy
    · rwa [Function.update_of_ne hsid] at hy
  | @giveUp sid' x _ _ hx hd =>
    refine (answered hd fun y hy => ⟨y, ?_⟩).elim
    unfold State.forsake at hy
    split at hy
    · exact hy
    · simpa [Server.leave, Function.update_of_ne (ne hx)] using hy
  | publish _ hm =>
    obtain ⟨x, _, _, hx, -, rfl⟩ := Server.answer_cases hm
    exact absurd hy (by simp [Function.update_of_ne (ne hx), hnew])
  | publishLost _ hm =>
    obtain ⟨x, _, _, hx, -, rfl⟩ := Server.answer_cases hm
    exact absurd hy (by simp [Function.update_of_ne (ne hx), hnew])
  | @dispatch d => simpa using effect { opens := some (.dispatcher d, .dispatch) } same hy
  | @crashDispatcher d x => simpa using effect { leaves := x.session } same hy
  | @createJob c _ _ key input id =>
    simpa using effect { opens := some (.call c, .createJob (newJob cfg input id key)) } same hy
  | @requeueJob c id => simpa using effect { opens := some (.call c, .requeueJob id) } same hy
  | advance => exact absurd (hnew.symm.trans hy) (by simp)
  | startWorker => exact absurd (hnew.symm.trans hy) (by simp)
  | startDispatcher => exact absurd (hnew.symm.trans hy) (by simp)
  | stopDispatcher => exact absurd (hnew.symm.trans hy) (by simp)
  | badKey => exact absurd (hnew.symm.trans hy) (by simp)
  | inject => exact absurd (hnew.symm.trans hy) (by simp)
  | dropStream => exact absurd (hnew.symm.trans hy) (by simp)

theorem Ruled.step {es : List Event} {a : Action} (h : Ruled stored s) (hp : Paired none s)
    (hs : Stepped cfg s a s' es) (hhonest : Honest stored s es) : Ruled stored s' := by
  constructor
  · intro w x' h' j r b hw hphase
    have hold {x : Worker} (hw : s.workers w = some x) (h' : Handle) (j : Job) (r : Result)
        (b : Beat) (hx : x.phase = .running h' j (some r) b) :
        r = j.verdict stored ∨ h'.done = true ∨ b = .failed := h.result w x h' j r b hw hx
    cases hs.turn hw with
    | idle hw => exact hold hw _ _ _ _ hphase
    | started _ hx =>
      subst hx
      cases hphase
    | acted hw' hx =>
      exact hx.ruled (hold hw') (fun h'' j'' r'' b'' hx'' he =>
        hhonest w h''.number j'' r'' _ h'' b'' he hw' hx'') hphase
    | told _ hw' hx => exact hx.ruled (hold hw') hphase
    | lost hw' hx => exact hx.ruled (hold hw') hphase
  · intro sid y j e message delay hy hop
    cases hs.continues hp hy with
    | stays hy' hop' => exact h.session sid _ _ _ _ _ hy' (hop' ▸ hop)
    | runs _ hy' hop' => exact h.session sid _ _ _ _ _ hy' (hop' ▸ hop)
    | answered hy' hop' => exact h.session sid _ _ _ _ _ hy' (hop' ▸ hop)
    | opened hnum _ _ hby =>
      have hnew : s.mysql.sessions sid = none := by
        cases hold : s.mysql.sessions sid with
        | none => rfl
        | some y' => exact absurd (hp.number sid y' hold) (by omega)
      have hparty : ∃ w, sid.party = .worker w := by
        rw [hop] at hby
        generalize sid.party = p at hby ⊢
        cases hby
        exact ⟨_, rfl⟩
      obtain ⟨w, hparty⟩ := hparty
      obtain ⟨x, x', fx, hw, hx, ho⟩ := hs.opener hnew hy hparty
      rw [hop] at ho
      cases hx with
      | settled hx hlive hout _ ho' =>
        obtain ⟨rfl, rfl, rfl, rfl⟩ : _ ∧ _ ∧ _ ∧ _ := by simpa using ho'.symm.trans ho
        -- The context is live, and so is the heartbeat.
        rw [(h.result w x _ _ _ _ hw hx).resolve_right (by simp [hlive])] at hout
        exact ⟨_, hout⟩
      | _ => simp_all

theorem HandledRun.ruled {s₀ : State} {es : List Event} (h : HandledRun cfg stored s₀ es s)
    (h₀ : Initial s₀) : Ruled stored s := by
  induction h with
  | refl => exact ⟨by simp [h₀.workers], by simp [h₀.sessions]⟩
  | step h hs hhonest ih => exact ih.step (h.run.paired h₀) (step_cases hs) hhonest

end Steps

/-! ## Fates -/

/-- What is said in the log of a job with this verdict. -/
def Foretold (v : Result) (l : LogRow) : Prop :=
  match l.toStatus with
  | .completed => v = .ok
  | .dead => l.message = exhaustedMsg ∨ ∃ permanent, v = .failed l.message permanent
  | .pending => l.fromStatus = some .processing → v = .failed l.message false
  | _ => True

/-- What there is of a job with this verdict: it is put back only if its failures pass, and
    it is dead only if its failure is permanent, or after its last attempt. -/
structure Fated (v : Result) (r : JobRow) : Prop where
  completed : r.status = .completed → v = .ok
  pending : r.status = .pending → 1 ≤ r.attemptCount → ∃ m, v = .failed m false
  dead : r.status = .dead → (∃ m, v = .failed m true) ∨ r.maxRetries + 1 ≤ r.attemptCount


section Fates

variable {cfg : Config} {stored : Json → Json} {lease : ℕ} {id : JobId} {lo hi : Env} {op : Op}
  {a : Answer} {v v' : JobView} {s₀ s s' : State} {es : List Event}

/-- A change of a job leaves its type, its payload and its budget alone. -/
theorem Change.same (h : Change lease id lo hi op a v v') {r r' : JobRow} (hr : v.row = some r)
    (hr' : v'.row = some r') :
    r'.type = r.type ∧ r'.payload = r.payload ∧ r'.maxRetries = r.maxRetries := by
  cases h with
  | published | dropped =>
    obtain rfl := Option.some.inj (hr.symm.trans hr')
    exact ⟨rfl, rfl, rfl⟩
  | created => cases hr
  | _ =>
    obtain rfl := Option.some.inj hr
    obtain rfl := Option.some.inj hr'
    exact ⟨rfl, rfl, rfl⟩

/-- A job is claimed with its payload. -/
theorem Life.payload {t₀ t : ℕ} {v₀ : JobView} {h : List (Op × Answer)}
    (hl : Life lease id v₀ t₀ h v t) (hnew : v₀.row = none) :
    (v.row = none → claims h = []) ∧
      ∀ r, v.row = some r → ∀ j ∈ claims h, j.payload = r.payload := by
  induction hl with
  | start => exact ⟨fun _ => rfl, fun r hr => absurd (hnew.symm.trans hr) (by simp)⟩
  | wait _ _ ih => exact ih
  | @change h v v' t lo hi op a _ hchange _ ih =>
    obtain ⟨hnone, hsome⟩ := ih
    have hclaims : claims (h ++ [(op, a)]) = claims h ++ (claimed? (op, a)).toList := by
      rw [claims_append, claims_cons]
      simp [claims]
    rw [hclaims]
    cases hchange with
    | published => exact ⟨by simpa [claimed?] using hnone, by simpa [claimed?] using hsome⟩
    | created => exact ⟨by simp, by simp [claimed?, hnone rfl]⟩
    | claimed =>
      refine ⟨by simp, fun r' hr' j hj => ?_⟩
      obtain rfl := Option.some.inj hr'
      rcases List.mem_append.1 hj with hj | hj
      · exact hsome _ rfl j hj
      · rw [show j = _ by simpa [claimed?] using hj]
        rfl
    | _ =>
      refine ⟨by simp, fun r' hr' j hj => ?_⟩
      obtain rfl := Option.some.inj hr'
      exact hsome _ rfl j (by simpa [claimed?] using hj)

/-- What is decided on a result. -/
theorem outcome_cases {j : Job} {r : Result} {jitter delay : ℕ} {e : Ending} {message : String}
    (h : outcome j r jitter = some (e, message, delay)) :
    e = .completed ∧ r = .ok ∨ e = .pending ∧ r = .failed message false ∨
      e = .dead ∧ ∃ permanent, r = .failed message permanent ∧
        (permanent = true ∨ j.maxRetries + 1 ≤ j.attemptCount) := by
  cases r with
  | ok =>
    obtain ⟨rfl, -⟩ : _ = e ∧ _ := by simpa [outcome] using h
    exact .inl ⟨rfl, rfl⟩
  | failed m permanent =>
    obtain ⟨rfl, rfl, -⟩ : _ = e ∧ _ = message ∧ _ := by simpa [outcome] using h
    by_cases hdead : permanent = true ∨ j.maxRetries + 1 ≤ j.attemptCount
    · exact .inr (.inr ⟨if_pos hdead, permanent, rfl, hdead⟩)
    · obtain rfl : permanent = false := by simpa using (not_or.1 hdead).1
      exact .inr (.inl ⟨if_neg hdead, rfl⟩)
  | panicked => cases h

/-- What is decided on the verdict keeps to the fate. -/
theorem Change.fated (hc : Change lease id lo hi op a v v') (hs : v.Sound)
    (hfin : ∀ j e m d r, op = .finish j e m d → v.row = some r → r.In j ∧
      ∃ jitter, outcome j (r.verdict stored) jitter = some (e, m, d))
    (hv : ∀ r, v.row = some r →
      Fated (r.verdict stored) r ∧ ∀ l ∈ v.logs, Foretold (r.verdict stored) l)
    {r' : JobRow} (hr' : v'.row = some r') :
    Fated (r'.verdict stored) r' ∧ ∀ l ∈ v'.logs, Foretold (r'.verdict stored) l := by
  have snoc {r : JobRow} {l' : LogRow} (hr : v.row = some r)
      (hl : Foretold (r.verdict stored) l') :
      ∀ l ∈ v.logs ++ [l'], Foretold (r.verdict stored) l := by
    rintro l hl'
    rcases List.mem_append.1 hl' with hl' | hl'
    · exact (hv r hr).2 l hl'
    · obtain rfl := List.mem_singleton.1 hl'
      exact hl
  cases hc with
  | @claimed g owner r =>
    obtain rfl := Option.some.inj hr'
    exact ⟨⟨by simp [JobRow.claim], by simp [JobRow.claim], by simp [JobRow.claim]⟩,
      snoc (r := r) rfl trivial⟩
  | @exhausted g owner r _ _ _ _ _ _ _ hr hbudget =>
    obtain rfl := Option.some.inj hr'
    exact ⟨⟨by simp [JobRow.bury], by simp [JobRow.bury], fun _ => .inr hbudget⟩,
      snoc (r := r) rfl (.inl rfl)⟩
  | @renewed j r =>
    obtain rfl := Option.some.inj hr'
    obtain ⟨hfated, hlogs⟩ := hv r rfl
    exact ⟨⟨hfated.completed, hfated.pending, hfated.dead⟩, hlogs⟩
  | @finished j e message delay r _ _ _ _ _ _ _ he =>
    obtain rfl := Option.some.inj hr'
    obtain ⟨hin, jitter, hout⟩ := hfin _ _ _ _ r rfl rfl
    rcases outcome_cases hout with ⟨rfl, hok⟩ | ⟨rfl, -⟩ | ⟨rfl, permanent, heq, hwhy⟩
    · exact ⟨⟨fun _ => hok, by simp [JobRow.finish, Ending.status],
        by simp [JobRow.finish, Ending.status]⟩, snoc (r := r) rfl hok⟩
    · exact absurd rfl he
    · refine ⟨⟨by simp [JobRow.finish, Ending.status], by simp [JobRow.finish, Ending.status],
        fun _ => ?_⟩, snoc (r := r) rfl (.inr ⟨permanent, heq⟩)⟩
      rcases hwhy with rfl | hall
      · exact .inl ⟨message, heq⟩
      · rw [← hin.maxRetries, ← hin.attemptCount] at hall
        exact .inr hall
  | @retried j message delay r =>
    obtain rfl := Option.some.inj hr'
    obtain ⟨hin, jitter, hout⟩ := hfin _ _ _ _ r rfl rfl
    rcases outcome_cases hout with ⟨h, -⟩ | ⟨-, heq⟩ | ⟨h, -⟩
    · cases h
    · exact ⟨⟨by simp [JobRow.finish], fun _ _ => ⟨message, heq⟩, by simp [JobRow.finish]⟩,
        snoc (r := r) rfl fun _ => heq⟩
    · cases h
  | published => exact hv _ hr'
  | dropped => exact hv _ hr'
  | created =>
    obtain rfl := Option.some.inj hr'
    obtain ⟨rfl, -⟩ := hs.absent rfl
    refine ⟨⟨by simp [NewJob.row], by simp [NewJob.row], by simp [NewJob.row]⟩, ?_⟩
    simp [Foretold]
  | @requeued r _ _ _ _ _ _ _ _ hst =>
    obtain rfl := Option.some.inj hr'
    refine ⟨⟨by simp [JobRow.requeue], by simp [JobRow.requeue], by simp [JobRow.requeue]⟩,
      snoc (r := r) rfl fun h => ?_⟩
    rcases hst with hst | hst <;> simp [hst] at h

theorem HandledRun.fated (h : HandledRun cfg stored s₀ es s) (h₀ : Initial s₀)
    (hnew : s₀.mysql.store.job? id = none) {r : JobRow}
    (hr : (s.mysql.store.view id).row = some r) :
    Fated (r.verdict stored) r ∧
      ∀ l ∈ (s.mysql.store.view id).logs, Foretold (r.verdict stored) l := by
  induction h generalizing r with
  | refl => exact absurd (hnew.symm.trans hr) (by simp)
  | @step es es' s s' a h hs _ ih =>
    have hk := h.run.kept h₀
    rcases (step_cases hs).view hk id with
      ⟨hsame, -⟩ | ⟨sid, how, db, op, a, lo, hi, -, hclose, hchange, -⟩
    · rw [hsame] at hr ⊢
      exact ih hr
    refine hchange.fated (hk.sound id) (fun j e m d q hop hq => ?_) (fun r hr => ih hr) hr
    subst hop
    have habout : about (.finish j e m d) a = some id := hchange.about_eq outboxOf_jobId
    obtain rfl : j.id = id := Option.some.inj habout
    obtain ⟨⟨q', hq', -, hin⟩, h₁, h₂, heq, -⟩ := h.run.finish h₀ hclose
    obtain rfl := Option.some.inj (hq'.symm.trans hq)
    obtain ⟨y, hy, hop, -⟩ := commit_session hclose
    obtain ⟨jitter, hout⟩ := (h.ruled h₀).session sid y j e m d hy hop
    refine ⟨hin, jitter, ?_⟩
    have hpayload : j.payload = q'.payload := by
      refine ((h.run.life h₀ j.id).payload hnew).2 _ hq j ?_
      rw [heq, claims_append, claims_cons]
      exact List.mem_append_right _ (List.mem_append_left _ (Option.mem_toList.2 rfl))
    rwa [JobRow.verdict, hin.type_eq, ← hpayload]

/-- A job is what was accepted. -/
theorem Life.accepted {t₀ t : ℕ} {v₀ : JobView} {h : List (Op × Answer)}
    (hl : Life lease id v₀ t₀ h v t) (hnew : v₀.row = none) {r : JobRow} (hr : v.row = some r) :
    ∃ k, (.createJob k, .done) ∈ h ∧ r.type = k.input.type.name ∧
      r.payload = .obj k.input.payload := by
  induction hl generalizing r with
  | start => exact absurd (hnew.symm.trans hr) (by simp)
  | wait _ _ ih => exact ih hr
  | @change h v v' t lo hi op a _ hchange _ ih =>
    cases hv : v.row with
    | some q =>
      obtain ⟨k, hk, htype, hpayload⟩ := ih hv
      obtain ⟨htype', hpayload', -⟩ := hchange.same hv hr
      exact ⟨k, List.mem_append_left _ hk, htype'.trans htype, hpayload'.trans hpayload⟩
    | none =>
      cases hchange with
      | published => exact absurd (hv.symm.trans hr) (by simp)
      | @created k =>
        obtain rfl := Option.some.inj hr
        exact ⟨k, List.mem_append_right _ (List.mem_singleton_self _), rfl, rfl⟩
      | _ => cases hv

end Fates

/-- In every run of the registered handlers, what becomes of a job was decided when it was
    accepted. It is only completed if its payload passes; then it is never put back, and
    dead only when all its attempts were interrupted. Otherwise it fails each time with the
    same message, and if that is for good, it is not put back. -/
theorem jobs_meet_their_fate {cfg : Config} {stored : Json → Json} {s₀ s : State}
    {es : List Event} (h₀ : Initial s₀) (h : HandledRun cfg stored s₀ es s) {id : JobId}
    (hnew : s₀.mysql.store.job? id = none) {r : JobRow} (hr : s.mysql.store.job? id = some r) :
    ∃ k, (.createJob k, .done) ∈ history id (closings es) ∧
      Fated (verdict k.input.type.name (stored (.obj k.input.payload))) r ∧
      ∀ l ∈ s.mysql.store.logsOf id,
        Foretold (verdict k.input.type.name (stored (.obj k.input.payload))) l := by
  obtain ⟨k, hk, htype, hpayload⟩ := (h.run.life h₀ id).accepted hnew hr
  have hfated := h.fated h₀ hnew hr
  rw [JobRow.verdict, htype, hpayload] at hfated
  exact ⟨k, hk, hfated⟩

/-- Not a result that differs from the verdict. -/
def Event.checked (stored : Json → Json) : Event → Bool
  | .returned _ _ j r => r = j.verdict stored
  | _ => true

theorem HandledRun.trans {cfg : Config} {stored : Json → Json} {s₀ s s' : State}
    {es es' : List Event} (h : HandledRun cfg stored s₀ es s)
    (h' : HandledRun cfg stored s es' s') : HandledRun cfg stored s₀ (es ++ es') s' := by
  induction h' with
  | refl => rwa [List.append_nil]
  | step _ hs hhonest ih =>
    rw [← List.append_assoc]
    exact ih.step hs hhonest

theorem HandledRun.play {stored : Json → Json} (cfg : Config) (s : State) (acts : List Action)
    (h : (s.play cfg acts).2.all (·.checked stored) = true) :
    HandledRun cfg stored s (s.play cfg acts).2 (s.play cfg acts).1 := by
  induction acts generalizing s with
  | nil => exact .refl
  | cons a acts ih =>
    rw [State.play] at h ⊢
    split at h
    · exact ih s h
    · rename_i s' es hs
      rw [List.all_append, Bool.and_eq_true] at h
      refine (HandledRun.step .refl hs fun w n j r x h' b hmem _ _ => ?_).trans (ih s' h.2)
      have : r = j.verdict stored := by simpa [Event.checked] using List.all_eq_true.1 h.1 _ hmem
      exact this ▸ .checked

/-- The first job has no recipient: it is dead after its first attempt. -/
theorem jobs_meet_their_fate_first :
    let run := State.after (firstClaim ++
      finishing "w" 4 0 (.failed "email payload missing to" true))
    ∃ r k, run.1.mysql.store.job? firstJob = some r ∧ r.status = .dead ∧ r.attemptCount = 1 ∧
      (.createJob k, .done) ∈ history firstJob (closings run.2) ∧
      Fated (verdict k.input.type.name (.obj k.input.payload)) r := by
  intro run
  have hrun : HandledRun (.defaults id) id .fresh run.2 run.1 :=
    .play _ _ (firstClaim ++ finishing "w" 4 0 (.failed "email payload missing to" true))
      (by decide)
  have hnew : State.fresh.mysql.store.job? firstJob = none := rfl
  obtain ⟨k, hk, hfated, -⟩ := jobs_meet_their_fate .fresh hrun hnew rfl
  exact ⟨_, k, rfl, by decide, by decide, hk, hfated⟩

end ScaleQueue
