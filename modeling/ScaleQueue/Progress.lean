import ScaleQueue.Budget
import ScaleQueue.Wakeups
import ScaleQueue.Locking.Held

/-!
# What the workers can do by themselves

The steps of the worker processes while MySQL and Redis can be reached and no process is
stopped or crashes (`Working`): time passes, statements run, `Dispatch` is called, the
consumer loops go round. A session ends by its own commit or rollback; it fails only if its
client has left it, as a client does whose context is over: that of a `Dispatch` after five
seconds, that of a delivery at the job timeout.
-/

namespace ScaleQueue

open Locking

/-- What a worker does that is not stopped and reaches Redis. -/
def WorkerAct.works : WorkerAct → Bool
  | .loop reachable => reachable
  | .recover => true
  | .read reachable => reachable
  | .tick => true
  | .result _ => true
  | .settle _ => true
  | .ack applied => applied
  | .expire => true
  | _ => false

/-- The timeout of the context that `Dispatch` is called with. -/
def dispatchTimeout : ℕ := 5000000

/-- A session of a worker process. -/
def Sid.inner (sid : Sid) : Prop := ∀ c, sid.party ≠ .call c

/-- The context of the client of a session is over. -/
inductive Overdue (s : State) (sid : Sid) : Prop
  | dispatch {d : ℕ} {y : Conn} (hparty : sid.party = .dispatcher d)
      (hy : s.mysql.sessions sid = some y) (hover : y.began + dispatchTimeout ≤ s.mysql.clock)
  | delivery {w : WorkerId} {x : Worker} {h : Handle} (hparty : sid.party.client = .worker w)
      (hw : s.workers w = some x) (hx : x.phase.handle? = some h) (hdone : h.done = true)

/-- A step of the worker processes, or of the time. -/
inductive Working (s : State) : Action → Prop
  | advance (d : ℕ) : Working s (.advance d)
  | exec {sid : Sid} (hin : sid.inner) (now : ℕ) : Working s (.exec sid now)
  | commit {sid : Sid} (hin : sid.inner) : Working s (.close sid .commit)
  | abort {sid : Sid} (hin : sid.inner) : Working s (.close sid .abort)
  /-- MySQL rolls back a transaction that its client has left. -/
  | rollback {sid : Sid} {y : Conn} (hin : sid.inner) (hy : s.mysql.sessions sid = some y)
      (hleft : y.attended = false) : Working s (.close sid .fail)
  | giveUp {sid : Sid} (hover : Overdue s sid) : Working s (.giveUp sid)
  | publish (sid : Sid) : Working s (.publish sid true true)
  | dispatch (d : ℕ) : Working s (.dispatch d)
  | worker (w : WorkerId) {a : WorkerAct} (ha : a.works = true) : Working s (.worker w a)

/-- The worker processes go on from `s`, and what happens. -/
inductive Onward (cfg : Config) (s : State) : List Event → State → Prop
  | refl : Onward cfg s [] s
  | step {es es' : List Event} {s' s'' : State} {a : Action} (h : Onward cfg s es s')
      (hw : Working s' a) (hs : s'.step cfg a = some (s'', es')) : Onward cfg s (es ++ es') s''

/-- `Claim` has returned the job. -/
def Reclaimed (id : JobId) (es : List Event) : Prop :=
  ∃ sid g w j, .closed sid (.committed (.claim id g w) (.job j)) ∈ es

/-- The job is completed or dead. -/
def State.Over (id : JobId) (s : State) : Prop :=
  ∃ r, s.mysql.store.job? id = some r ∧ r.terminal

/-- The worker processes can go on until the job is claimed again, or over. -/
def State.Heals (cfg : Config) (id : JobId) (s : State) : Prop :=
  ∃ es s', Onward cfg s es s' ∧ (Reclaimed id es ∨ s'.Over id)

section Basics

variable {cfg : Config} {s s' s'' : State} {es es' : List Event} {id : JobId} {a : Action}

theorem Onward.trans (h : Onward cfg s es s') (h' : Onward cfg s' es' s'') :
    Onward cfg s (es ++ es') s'' := by
  induction h' with
  | refl => rwa [List.append_nil]
  | step _ hw hs ih => rw [← List.append_assoc]; exact ih.step hw hs

theorem Onward.one (hw : Working s a) (hs : s.step cfg a = some (s', es)) : Onward cfg s es s' :=
  Onward.step .refl hw hs

theorem Onward.run (h : Onward cfg s es s') : Run cfg s es s' := by
  induction h with
  | refl => exact .refl
  | step _ _ hs ih => exact ih.step hs

/-- What heals later heals. -/
theorem Onward.heals (h : Onward cfg s es s') (hs' : s'.Heals cfg id) : s.Heals cfg id := by
  obtain ⟨es', s'', h', hend⟩ := hs'
  refine ⟨_, s'', h.trans h', hend.imp_left ?_⟩
  rintro ⟨sid, g, w, j, hmem⟩
  exact ⟨sid, g, w, j, List.mem_append_right _ hmem⟩

end Basics

/-! ## What sessions hold -/

/-- The lock of a place in the outbox is taken with that of its job. -/
def Key.lead : Key → Option Key
  | .out p => some (.job p.jobId)
  | _ => none

theorem Op.script_single (cfg : Config) {op : Op} (h : op.autocommit = true) :
    (op.script cfg).Single := by
  cases op with
  | renew j =>
    intro e t
    dsimp only
    unfold owned
    split <;> trivial
  | selectById id => exact fun _ _ => trivial
  | selectByRequestKey h => exact fun _ _ => trivial
  | _ => simp [Op.autocommit] at h

section Heeds

variable {H : List Key} {next : Tx} {id : JobId}

theorem selectForUpdate_heeds {next : ℕ → Option JobRow → Tx}
    (h : ∀ now r, (next now r).Heeds Key.lead (.job id :: H)) :
    (selectForUpdate id next).Heeds Key.lead H :=
  ⟨fun k hk l hl => by simp_all [Key.lead], fun _ _ => h _ _⟩

theorem updateJob_heeds {f : ℕ → JobUpdate} (h : next.Heeds Key.lead (.job id :: H)) :
    (updateJob id f next).Heeds Key.lead H :=
  ⟨fun k hk l hl => by simp_all [Key.lead], fun _ _ => h⟩

theorem insertLog_heeds {fromStatus : Option JobStatus} {toStatus : JobStatus} {message : String}
    {workerId : Option WorkerId} (h : next.Heeds Key.lead (.job id :: H)) :
    (insertLog id fromStatus toStatus message workerId next).Heeds Key.lead H :=
  ⟨fun k hk l hl => by simp_all [Key.lead], fun _ _ => h⟩

theorem insertOutbox_heeds {p : Place} {f : ℕ → ℕ} (hp : .job p.jobId ∈ H)
    (h : next.Heeds Key.lead (.out p :: H)) : (insertOutbox p f next).Heeds Key.lead H := by
  refine ⟨fun k hk l hl => ?_, fun _ _ => ?_⟩
  · obtain rfl := List.mem_singleton.1 hk
    obtain rfl := Option.some.inj hl
    exact List.mem_append_right _ hp
  · dsimp only
    split_ifs
    · trivial
    · trivial
    · exact h

theorem owned_heeds {n : ℕ} (h : next.Heeds Key.lead H) : (owned n next).Heeds Key.lead H := by
  unfold owned
  split
  · trivial
  · exact h

theorem claim_heeds (lease : ℕ) (id : JobId) (generation : ℕ) (owner : WorkerId) :
    (claim lease id generation owner).Heeds Key.lead [] := by
  refine selectForUpdate_heeds fun _ row => ?_
  cases row with
  | none => trivial
  | some j =>
    dsimp only
    split_ifs
    · trivial
    · trivial
    · trivial
    · exact updateJob_heeds (insertLog_heeds trivial)
    · trivial
    · exact updateJob_heeds (insertLog_heeds trivial)

theorem renew_heeds (lease : ℕ) (j : Job) : (renew lease j).Heeds Key.lead [] :=
  ⟨fun k hk l hl => by simp_all [Key.lead], fun _ _ => owned_heeds trivial⟩

theorem finish_heeds (j : Job) (status : JobStatus) (message : String) (delay : ℕ) :
    (finish j status message delay).Heeds Key.lead [] := by
  refine ⟨fun k hk l hl => by simp_all [Key.lead], fun _ _ => owned_heeds (insertLog_heeds ?_)⟩
  split
  · refine selectForUpdate_heeds fun _ row => ?_
    cases row with
    | none => trivial
    | some r => exact insertOutbox_heeds List.mem_cons_self trivial
  · trivial

theorem createJob_heeds (j : NewJob) : (createJob j).Heeds Key.lead [] := by
  refine ⟨fun k hk l hl => ?_, fun _ _ => ?_⟩
  · rcases List.mem_cons.1 hk with rfl | hk
    · cases hl
    · obtain ⟨r, -, rfl⟩ := Option.map_eq_some_iff.1 (Option.mem_toList.1 hk)
      cases hl
  · dsimp only
    split
    · exact insertLog_heeds (insertOutbox_heeds List.mem_cons_self trivial)
    · trivial

theorem requeueJob_heeds (jobId : JobId) : (requeueJob jobId).Heeds Key.lead [] := by
  refine selectForUpdate_heeds fun _ row => ?_
  cases row with
  | none => trivial
  | some job =>
    dsimp only
    split_ifs
    · trivial
    · trivial
    · exact updateJob_heeds (insertLog_heeds (insertOutbox_heeds List.mem_cons_self trivial))

/-- Every transaction but `Dispatch` takes the lock of a place with that of its job. -/
theorem Op.script_heeds (cfg : Config) {op : Op} (h : op ≠ .dispatch) :
    (op.script cfg).Heeds Key.lead [] := by
  cases op with
  | claim => exact claim_heeds _ _ _ _
  | renew => exact renew_heeds _ _
  | finish => exact finish_heeds _ _ _ _
  | dispatch => exact absurd rfl h
  | createJob => exact createJob_heeds _
  | requeueJob => exact requeueJob_heeds _
  | selectById => exact fun _ _ => trivial
  | selectByRequestKey => exact fun _ _ => trivial

end Heeds

section Safe

variable {cfg : Config} {s s' : State} {es : List Event} {sid : Sid} {a : Option Answer}
  {I : MySQL → Prop}

/-- The next session holds no lock yet. -/
def State.Fresh (s : State) : Prop := ∀ p k, s.mysql.locks k ≠ some ⟨p, s.opened⟩

theorem Kept.fresh (hk : Kept cfg s.mysql) (hp : Paired none s) : s.Fresh := by
  intro p k hlock
  obtain ⟨y, hy⟩ := Option.isSome_iff_exists.1 (hk.isolated.locked k _ hlock)
  exact absurd (hp.number _ y hy) (lt_irrefl _)

theorem affect_safe (hI : Server.Safe (Op.script cfg) I) (h : I s.mysql) (hf : s.Fresh)
    (fx : Effects) : I (s.affect cfg fx).mysql := by
  unfold State.affect State.leave
  dsimp only
  cases fx.opens with
  | none =>
    cases fx.leaves with
    | none => exact h
    | some sid => exact hI.leave _ sid h
  | some x =>
    cases fx.leaves with
    | none => exact hI.begin _ _ x.2 h (hf _)
    | some sid => exact hI.begin _ _ x.2 (hI.leave _ sid h) (hf _)

theorem Delivered.safe (hd : Delivered cfg s sid a s' es) (hI : Server.Safe (Op.script cfg) I)
    (h : I s.mysql) (hf : s.Fresh) : I s'.mysql := by
  cases hd with
  | nobody => exact h
  | worker => exact affect_safe hI h hf _
  | dispatcher => exact h
  | call => exact affect_safe hI h hf _

theorem Stepped.safe {a : Action} (hs : Stepped cfg s a s' es)
    (hI : Server.Safe (Op.script cfg) I) (h : I s.mysql) (hf : s.Fresh) : I s'.mysql := by
  cases hs with
  | advance d => exact hI.advance _ d h
  | exec hx => exact hI.exec _ _ _ _ h hx
  | @close sid how db k s' es hx hd =>
    obtain ⟨t, rfl⟩ := Server.close_drop hx
    refine hd.safe hI (hI.drop _ sid t h) fun p k hk => ?_
    simp only [Server.drop, Server.release] at hk
    split at hk
    · cases hk
    · exact hf p k hk
  | @giveUp sid y s' es hy hd =>
    unfold State.forsake at hd
    split at hd
    · exact hd.safe hI h hf
    · exact hd.safe hI (hI.leave _ sid h) hf
  | publish _ hx => exact hI.answer _ _ _ _ h hx
  | publishLost _ hx => exact hI.answer _ _ _ _ h hx
  | startWorker => exact h
  | worker => exact affect_safe hI h hf _
  | startDispatcher => exact h
  | @dispatch d => exact affect_safe hI h hf { opens := some (.dispatcher d, .dispatch) }
  | stopDispatcher => exact h
  | @crashDispatcher d x => exact affect_safe hI h hf { leaves := x.session }
  | badKey => exact h
  | @createJob c _ _ key input id =>
    exact affect_safe hI h hf { opens := some (.call c, .createJob (newJob cfg input id key)) }
  | @requeueJob c id => exact affect_safe hI h hf { opens := some (.call c, .requeueJob id) }
  | inject => exact h
  | dropStream => exact h

/-- What holds without sessions, and is kept by the server, holds in every run. -/
theorem Run.safe {s₀ : State} (h : Run cfg s₀ es s) (h₀ : Initial s₀)
    (hI : Server.Safe (Op.script cfg) I) (hI₀ : I s₀.mysql) : I s.mysql := by
  induction h with
  | refl => exact hI₀
  | step h hs ih => exact (step_cases hs).safe hI ih ((h.kept h₀).fresh (h.paired h₀))

/-- What is sent without a transaction has run, or holds no lock. -/
theorem Run.brief {s₀ : State} (h : Run cfg s₀ es s) (h₀ : Initial s₀) :
    Server.Brief (·.autocommit = true) s.mysql :=
  h.safe h₀ (Server.Brief.safe fun _ => Op.script_single cfg) fun sid y hy => by
    simp [h₀.sessions] at hy

theorem Run.heedful {s₀ : State} (h : Run cfg s₀ es s) (h₀ : Initial s₀) :
    Server.Heedful Key.lead (· ≠ .dispatch) s.mysql :=
  h.safe h₀ (Server.Heedful.safe fun _ => Op.script_heeds cfg) fun sid y hy => by
    simp [h₀.sessions] at hy

/-- The calls of `Dispatch` are those of the dispatchers. -/
theorem Run.dispatching {s₀ : State} (h : Run cfg s₀ es s) (h₀ : Initial s₀) {y : Conn}
    (hy : s.mysql.sessions sid = some y) (hop : y.op = .dispatch) :
    ∃ d, sid.party = .dispatcher d := by
  induction h generalizing y with
  | refl => simp [h₀.sessions] at hy
  | step h hs ih =>
    cases (step_cases hs).continues (h.paired h₀) hy with
    | stays hy' hop' => exact ih hy' (hop'.symm.trans hop)
    | runs _ hy' hop' => exact ih hy' (hop'.symm.trans hop)
    | answered hy' hop' => exact ih hy' (hop'.symm.trans hop)
    | opened _ _ _ hby =>
      rw [hop] at hby
      generalize sid.party = party at hby
      cases hby
      exact ⟨_, rfl⟩

/-- A request of the API holds the job of each place that it holds. -/
theorem Run.leading {s₀ : State} (h : Run cfg s₀ es s) (h₀ : Initial s₀) {p : Place}
    (hlock : s.mysql.locks (.out p) = some sid) (hout : ¬ sid.inner) :
    s.mysql.locks (.job p.jobId) = some sid := by
  obtain ⟨y, hy⟩ := Option.isSome_iff_exists.1 ((h.kept h₀).isolated.locked _ _ hlock)
  refine (h.heedful h₀ sid y hy fun hop => hout ?_).1 _ hlock _ rfl
  obtain ⟨d, hparty⟩ := h.dispatching h₀ hy hop
  exact fun c hc => by simp [hparty] at hc

end Safe

/-! ## What is kept -/

section Going

variable {cfg : Config} {s₀ s s' : State} {w : WorkerId} {x x' : Worker} {fx : Effects}
  {es : List Event} {a : Action} {sid : Sid} {d : ℕ} {p : Place}

theorem handle_up (e : Redis.Entry Message) :
    (x.handle cfg s w e).1.up = x.up ∧ (x.handle cfg s w e).1.stopping = x.stopping := by
  unfold Worker.handle
  split <;> exact ⟨rfl, rfl⟩

/-- The loop ends only after the stop, at its head. -/
theorem loop_up {reachable : Bool} (h : x.act cfg s w (.loop reachable) = some (x', fx)) :
    (x'.up = x.up ∨ x'.phase = .idle ∧ x.stopping = true) ∧ x'.stopping = x.stopping := by
  simp only [Worker.act] at h
  split at h
  · rename_i hidle
    split_ifs at h with hstop
    · obtain ⟨rfl, rfl⟩ := Prod.mk.inj (Option.some.inj h)
      exact ⟨.inr ⟨hidle, hstop⟩, rfl⟩
    · obtain ⟨rfl, rfl⟩ := Prod.mk.inj (Option.some.inj h)
      exact ⟨.inl rfl, rfl⟩
    · split at h
      · obtain ⟨rfl, rfl⟩ := Prod.mk.inj (Option.some.inj h)
        exact ⟨.inl rfl, rfl⟩
      · obtain ⟨rfl, rfl⟩ := Prod.mk.inj (Option.some.inj h)
        exact ⟨.inl rfl, rfl⟩
    · obtain ⟨rfl, rfl⟩ := Prod.mk.inj (Option.some.inj h)
      exact ⟨.inl rfl, rfl⟩
  · cases h

/-- The loop ends only after the stop, when the read has returned. -/
theorem read_up {reachable : Bool} (h : x.act cfg s w (.read reachable) = some (x', fx)) :
    (x'.up = x.up ∨ x'.phase = .idle ∧ x.stopping = true) ∧ x'.stopping = x.stopping := by
  simp only [Worker.act] at h
  split at h
  · rename_i hidle
    split at h
    · split_ifs at h with hstop
      · obtain ⟨rfl, rfl⟩ := Prod.mk.inj (Option.some.inj h)
        exact ⟨.inr ⟨hidle, hstop⟩, rfl⟩
      · obtain ⟨rfl, rfl⟩ := Prod.mk.inj (Option.some.inj h)
        exact ⟨.inl rfl, rfl⟩
    · split_ifs at h with hstop
      · obtain ⟨rfl, rfl⟩ := Prod.mk.inj (Option.some.inj h)
        exact ⟨.inr ⟨hidle, hstop⟩, rfl⟩
      · split at h
        · obtain ⟨rfl, rfl⟩ := Prod.mk.inj (Option.some.inj h)
          exact ⟨.inl rfl, rfl⟩
        · obtain ⟨rfl, rfl⟩ := Prod.mk.inj (Option.some.inj h)
          exact (handle_up _).imp_left .inl
  · cases h

/-- No other step of a worker ends it, but a crash. -/
theorem act_kept {a : WorkerAct} (h : x.act cfg s w a = some (x', fx)) (hloop : ∀ b, a ≠ .loop b)
    (hread : ∀ b, a ≠ .read b) (hstop : a ≠ .stop) (hcrash : a ≠ .crash) :
    x'.up = x.up ∧ x'.stopping = x.stopping := by
  cases a with
  | loop b => exact absurd rfl (hloop b)
  | read b => exact absurd rfl (hread b)
  | stop => exact absurd rfl hstop
  | crash => exact absurd rfl hcrash
  | recover =>
    simp only [Worker.act] at h
    split at h
    · split at h
      · obtain ⟨rfl, rfl⟩ := Prod.mk.inj (Option.some.inj h)
        exact ⟨rfl, rfl⟩
      · split_ifs at h
        · obtain ⟨rfl, rfl⟩ := Prod.mk.inj (Option.some.inj h)
          exact ⟨rfl, rfl⟩
        · obtain ⟨rfl, rfl⟩ := Prod.mk.inj (Option.some.inj h)
          exact handle_up _
    · cases h
  | tick =>
    simp only [Worker.act] at h
    split at h
    · split_ifs at h
      obtain ⟨rfl, rfl⟩ := Prod.mk.inj (Option.some.inj h)
      exact ⟨rfl, rfl⟩
    · cases h
  | result r =>
    simp only [Worker.act] at h
    split at h
    · split_ifs at h
      · obtain ⟨rfl, rfl⟩ := Prod.mk.inj (Option.some.inj h)
        exact ⟨rfl, rfl⟩
      · obtain ⟨rfl, rfl⟩ := Prod.mk.inj (Option.some.inj h)
        exact ⟨rfl, rfl⟩
    · cases h
  | settle jitter =>
    simp only [Worker.act] at h
    split at h
    · obtain ⟨rfl, rfl⟩ := Prod.mk.inj (Option.some.inj h)
      exact ⟨rfl, rfl⟩
    · split_ifs at h
      · obtain ⟨rfl, rfl⟩ := Prod.mk.inj (Option.some.inj h)
        exact ⟨rfl, rfl⟩
      · split at h
        · cases h
        · obtain ⟨rfl, rfl⟩ := Prod.mk.inj (Option.some.inj h)
          exact ⟨rfl, rfl⟩
    · cases h
  | ack applied =>
    simp only [Worker.act] at h
    split at h
    · obtain ⟨rfl, rfl⟩ := Prod.mk.inj (Option.some.inj h)
      exact ⟨rfl, rfl⟩
    · cases h
  | expire | cancel =>
    simp only [Worker.act] at h
    split at h
    · split_ifs at h
      obtain ⟨rfl, rfl⟩ := Prod.mk.inj (Option.some.inj h)
      exact ⟨rfl, rfl⟩
    · cases h

/-- A worker goes down with nothing in hand, and because it is stopped, or crashes. -/
theorem act_up {a : WorkerAct} (h : x.act cfg s w a = some (x', fx)) (hup : x.up = true) :
    (x'.up = true ∨ x'.phase = .idle ∧ (x.stopping = true ∨ a = .crash)) ∧
      (x'.stopping = x.stopping ∨ a = .stop) := by
  cases a with
  | loop =>
    obtain ⟨hend, hsame⟩ := loop_up h
    exact ⟨hend.imp (·.trans hup) (And.imp_right .inl), .inl hsame⟩
  | read =>
    obtain ⟨hend, hsame⟩ := read_up h
    exact ⟨hend.imp (·.trans hup) (And.imp_right .inl), .inl hsame⟩
  | stop =>
    obtain ⟨rfl, rfl⟩ := Prod.mk.inj (Option.some.inj h)
    exact ⟨.inl hup, .inr rfl⟩
  | crash =>
    obtain ⟨rfl, rfl⟩ := Prod.mk.inj (Option.some.inj h)
    exact ⟨.inr ⟨rfl, .inr rfl⟩, .inl rfl⟩
  | _ =>
    obtain ⟨hsame, hstop⟩ := act_kept h nofun nofun nofun nofun
    exact ⟨.inl (hsame.trans hup), .inl hstop⟩

theorem Delivered.mysql_eq {b : Option Answer} (h : Delivered cfg s sid b s' es) :
    s'.mysql.store = s.mysql.store ∧ s'.mysql.clock = s.mysql.clock ∧
      s'.mysql.locks = s.mysql.locks := by
  cases h with
  | nobody => exact ⟨rfl, rfl, rfl⟩
  | worker => exact affect_store _
  | dispatcher => exact ⟨rfl, rfl, rfl⟩
  | call => exact affect_store _

/-- An answer changes a worker in its phase only. -/
theorem Delivered.worker_eq {b : Option Answer} (h : Delivered cfg s sid b s' es)
    (hw : s.workers w = some x) : ∃ p, s'.workers w = some { x with phase := p } := by
  cases h with
  | nobody => exact ⟨x.phase, hw⟩
  | @worker v y y' fx _ hy hret =>
    obtain ⟨-, -, -, -, p, rfl⟩ := returned_effects hret
    by_cases hv : w = v
    · subst hv
      obtain rfl := Option.some.inj (hw.symm.trans hy)
      exact ⟨p, Function.update_self _ _ _⟩
    · exact ⟨x.phase, (Function.update_of_ne hv _ _).trans hw⟩
  | dispatcher => exact ⟨x.phase, hw⟩
  | call => exact ⟨x.phase, hw⟩

theorem Delivered.dispatcher_eq {b : Option Answer} (h : Delivered cfg s sid b s' es)
    {y : Dispatcher} (hd : s.dispatchers d = some y) :
    ∃ o, s'.dispatchers d = some { y with session := o } := by
  cases h with
  | nobody => exact ⟨y.session, hd⟩
  | worker => exact ⟨y.session, hd⟩
  | @dispatcher d' y' _ hy' _ =>
    by_cases hdd : d = d'
    · subst hdd
      obtain rfl := Option.some.inj (hd.symm.trans hy')
      exact ⟨none, Function.update_self _ _ _⟩
    · exact ⟨y.session, (Function.update_of_ne hdd _ _).trans hd⟩
  | call => exact ⟨y.session, hd⟩

theorem forsake_locks (sid : Sid) (y : Conn) : (s.forsake sid y).mysql.locks = s.mysql.locks := by
  unfold State.forsake
  split <;> rfl

/-- Locks are taken by statements only. -/
theorem Stepped.locks (h : Stepped cfg s a s' es) {k : Key} (hk : s'.mysql.locks k = some sid) :
    s.mysql.locks k = some sid ∨ ∃ now, a = .exec sid now := by
  cases h with
  | @exec sid' now db hx =>
    obtain ⟨x, keys, y, -, -, -, -, rfl, hex⟩ := Server.exec_inv hx
    by_cases hsid : sid = sid'
    · exact .inr ⟨now, by rw [hsid]⟩
    · exact .inl ((Server.goOn_locks hex.free hsid k).1 hk)
  | @close sid' how db c s' es hx hd =>
    rw [hd.mysql_eq.2.2] at hk
    obtain ⟨t, rfl⟩ := Server.close_drop hx
    simp only [Server.drop, Server.release] at hk
    split at hk
    · cases hk
    · exact .inl hk
  | @giveUp sid' y s' es hy hd =>
    rw [hd.mysql_eq.2.2, forsake_locks] at hk
    exact .inl hk
  | publish _ hx =>
    obtain ⟨_, _, _, -, -, rfl⟩ := Server.answer_cases hx
    exact .inl hk
  | publishLost _ hx =>
    obtain ⟨_, _, _, -, -, rfl⟩ := Server.answer_cases hx
    exact .inl hk
  | @worker _ _ _ _ fx => exact .inl ((affect_store fx).2.2 ▸ hk)
  | @dispatch d =>
    exact .inl ((affect_store { opens := some (.dispatcher d, .dispatch) }).2.2 ▸ hk)
  | @crashDispatcher d y =>
    have hsame : (s.affect cfg { leaves := y.session }).mysql.locks = s.mysql.locks :=
      (affect_store _).2.2
    exact .inl (hsame ▸ hk)
  | @createJob c _ _ key input id =>
    exact .inl ((affect_store
      { opens := some (.call c, .createJob (newJob cfg input id key)) }).2.2 ▸ hk)
  | @requeueJob c id =>
    exact .inl ((affect_store { opens := some (.call c, .requeueJob id) }).2.2 ▸ hk)
  | _ => exact .inl hk

/-- A worker that is down has nothing in hand. -/
def State.Awake (s : State) : Prop := ∀ w x, s.workers w = some x → x.up = false → x.phase = .idle

theorem Delivered.awake {b : Option Answer} (hd : Delivered cfg s sid b s' es) (h : s.Awake) :
    s'.Awake := by
  cases hd with
  | nobody => exact h
  | @worker v y y' fx _ hy hret =>
    intro w x hw hdown
    by_cases hv : w = v
    · subst hv
      obtain rfl : y' = x := by simpa [State.setWorker] using hw
      obtain ⟨-, -, -, -, p, rfl⟩ := returned_effects hret
      -- A worker without a delivery waits for no answer.
      simp [Worker.returned, h w y hy hdown] at hret
    · exact h w x (by simpa [State.setWorker, hv] using hw) hdown
  | dispatcher => exact h
  | call => exact h

theorem Stepped.awake (hs : Stepped cfg s a s' es) (h : s.Awake) : s'.Awake := by
  cases hs with
  | close _ hd => exact hd.awake h
  | giveUp _ hd => exact hd.awake h
  | @startWorker v =>
    intro w x hw hdown
    by_cases hv : w = v
    · subst hv
      obtain rfl : Worker.start _ = x := by simpa [State.setWorker] using hw
      cases hdown
    · exact h w x (by simpa [State.setWorker, hv] using hw) hdown
  | @worker v _ y y' fx hy hup hx =>
    intro w x hw hdown
    by_cases hv : w = v
    · subst hv
      obtain rfl : y' = x := by simpa [State.setWorker] using hw
      rcases (act_up hx hup).1 with hup' | ⟨hidle, -⟩
      · rw [hup'] at hdown
        cases hdown
      · exact hidle
    · exact h w x (by simpa [State.setWorker, hv] using hw) hdown
  | _ => exact h

/-- A worker that is up and not stopped stays so. -/
theorem Stepped.works (hs : Stepped cfg s a s' es) (hwork : Working s a)
    (hw : s.workers w = some x) (hup : x.up = true) (hgo : x.stopping = false) :
    ∃ x', s'.workers w = some x' ∧ x'.up = true ∧ x'.stopping = false := by
  cases hs with
  | close _ hd =>
    obtain ⟨p, hp⟩ := hd.worker_eq (s := { s with mysql := _ }) hw
    exact ⟨_, hp, hup, hgo⟩
  | @giveUp _ y _ _ _ hd =>
    obtain ⟨p, hp⟩ := hd.worker_eq (s := s.forsake _ y) hw
    exact ⟨_, hp, hup, hgo⟩
  | @worker v b y y' fx hy hup' hx =>
    by_cases hv : w = v
    · subst hv
      obtain rfl := Option.some.inj (hw.symm.trans hy)
      obtain ⟨hend, hstop⟩ := act_up hx hup
      refine ⟨y', Function.update_self _ _ _, ?_⟩
      cases hwork with
      | worker _ ha => cases b <;> simp_all [WorkerAct.works]
    · exact ⟨x, by simpa [State.setWorker, hv] using hw, hup, hgo⟩
  | startWorker => cases hwork
  | _ => exact ⟨x, hw, hup, hgo⟩

/-- A dispatcher that is up and not stopped stays so. -/
theorem Stepped.dispatches (hs : Stepped cfg s a s' es) (hwork : Working s a) {o : Option Sid}
    (hd : s.dispatchers d = some ⟨o, false, true⟩) :
    ∃ o', s'.dispatchers d = some ⟨o', false, true⟩ := by
  cases hs with
  | close _ hdel => exact hdel.dispatcher_eq (s := { s with mysql := _ }) hd
  | @giveUp _ y _ _ _ hdel => exact hdel.dispatcher_eq (s := s.forsake _ y) hd
  | @dispatch e he =>
    by_cases hde : d = e
    · subst hde
      exact ⟨_, Function.update_self _ _ _⟩
    · exact ⟨o, by simpa [State.setDispatcher, hde] using hd⟩
  | startDispatcher => cases hwork
  | stopDispatcher => cases hwork
  | crashDispatcher => cases hwork
  | _ => exact ⟨o, hd⟩

/-- The workers keep the group. -/
theorem Stepped.group (hs : Stepped cfg s a s' es) (hwork : Working s a)
    (h : s.stream.group.isSome) : s'.stream.group.isSome := by
  cases hs with
  | close _ hd => rwa [hd.stream]
  | giveUp _ hd =>
    rw [hd.stream, State.forsake]
    exact h
  | publish => rwa [Redis.group_xadd]
  | @worker v b y y' fx hy hup' hx =>
    show (fx.stream.getD s.stream).group.isSome
    cases act_served hx with
    | nothing hnone => rwa [hnone]
    | recovered hclaim hkey => exact hkey ▸ Redis.isSome_group_xautoclaim hclaim
    | read hread hkey => exact hkey ▸ Redis.isSome_group_xreadgroup hread
    | acked _ hkey => exact hkey ▸ Redis.isSome_group_xack h _
  | startWorker => cases hwork
  | inject => cases hwork
  | dropStream => cases hwork
  | _ => exact h

end Going

/-! ## A job that is not over -/

/-- The state is reached in a run in which the job was created. -/
def State.Reached (cfg : Config) (id : JobId) (s : State) : Prop :=
  ∃ s₀ es, Initial s₀ ∧ s₀.mysql.store.job? id = none ∧ Run cfg s₀ es s

section Reached

variable {cfg : Config} {s s' : State} {id : JobId} {es : List Event} {a : Action}

theorem State.Reached.step (h : s.Reached cfg id) (hs : s.step cfg a = some (s', es)) :
    s'.Reached cfg id := by
  obtain ⟨s₀, es₀, h₀, hnew, hrun⟩ := h
  exact ⟨s₀, _, h₀, hnew, hrun.step hs⟩

theorem State.Reached.kept (h : s.Reached cfg id) : Kept cfg s.mysql := by
  obtain ⟨s₀, es, h₀, -, hrun⟩ := h
  exact hrun.kept h₀

theorem State.Reached.paired (h : s.Reached cfg id) : Paired none s := by
  obtain ⟨s₀, es, h₀, -, hrun⟩ := h
  exact hrun.paired h₀

theorem State.Reached.brief (h : s.Reached cfg id) :
    Server.Brief (·.autocommit = true) s.mysql := by
  obtain ⟨s₀, es, h₀, -, hrun⟩ := h
  exact hrun.brief h₀

theorem State.Reached.awake (h : s.Reached cfg id) : s.Awake := by
  obtain ⟨s₀, es, h₀, -, hrun⟩ := h
  induction hrun with
  | refl => exact fun w x hw => by simp [h₀.workers] at hw
  | step _ hs ih => exact (step_cases hs).awake ih

theorem State.Reached.stream (h : s.Reached cfg id) : s.stream.Sound := by
  obtain ⟨s₀, es, h₀, -, hrun⟩ := h
  induction hrun with
  | refl => exact h₀.stream
  | step _ hs ih => exact ((step_cases hs).stream ih).1

/-- What the claims of a job need: it is not `FAILED`, and its attempts are few. -/
theorem State.Reached.bounded (h : s.Reached cfg id) {r : JobRow}
    (hr : s.mysql.store.job? id = some r) : r.status ≠ .failed ∧ r.maxRetries ≤ 10 := by
  obtain ⟨s₀, es, h₀, hnew, hrun⟩ := h
  have hcov := (hrun.life h₀ id).covered (h₀.sound id) (by simp [Tables.view, hnew]) r hr
  obtain ⟨j, -, hmax⟩ := (hrun.budgeted h₀ hnew r hr).accepted
  exact ⟨hcov.not_failed, hmax ▸ j.input.maxRetries_le⟩

/-- A job that is not over has an outbox row of its generation. -/
theorem State.Reached.listed (h : s.Reached cfg id) {r : JobRow}
    (hr : s.mysql.store.job? id = some r) (hlive : ¬ r.terminal) :
    ∃ p : Place, p.jobId = id ∧ p.generation = r.generation ∧ (s.mysql.store.out? p).isSome := by
  have hfail := (h.bounded hr).1
  obtain ⟨s₀, es, h₀, hnew, hrun⟩ := h
  have hcov := (hrun.life h₀ id).covered (h₀.sound id) (by simp [Tables.view, hnew]) r hr
  obtain ⟨o, ho, hg⟩ : ∃ o ∈ s.mysql.store.outboxOf id, o.place.generation = r.generation := by
    cases hst : r.status with
    | pending =>
      obtain ⟨o, ho, hg, -⟩ := hcov.pending hst
      exact ⟨o, ho, hg⟩
    | processing =>
      obtain ⟨o, ho, hg, -⟩ := hcov.processing hst
      exact ⟨o, ho, hg⟩
    | completed => exact absurd (.inl hst) hlive
    | failed => exact absurd hst hfail
    | dead => exact absurd (.inr hst) hlive
  obtain ⟨hmem, hid⟩ := (s.mysql.store.mem_outboxOf).1 ho
  exact ⟨o.place, hid, hg, Option.isSome_iff_exists.2 ⟨o, Tables.out?_of_mem hmem⟩⟩

/-- A job that is neither over nor failed stays in its generation. -/
theorem Change.generation_kept {lease : ℕ} {lo hi : Env} {op : Op} {b : Answer} {v v' : JobView}
    (hc : Change lease id lo hi op b v v') {r : JobRow} (hr : v.row = some r)
    (hlive : ¬ r.terminal) (hfail : r.status ≠ .failed) :
    ∃ r', v'.row = some r' ∧ r'.generation = r.generation := by
  cases hc with
  | created => cases hr
  | published => exact ⟨r, hr, rfl⟩
  | requeued _ hst =>
    obtain rfl := Option.some.inj hr
    exact absurd hst (not_or.2 ⟨fun hdead => hlive (.inr hdead), hfail⟩)
  | _ =>
    obtain rfl := Option.some.inj hr
    exact ⟨_, rfl, rfl⟩

end Reached

/-- The worker processes run, with a consumer group; the job of the place is not over, the
    place is in the outbox, and nobody but workers has locked either. -/
structure Going (cfg : Config) (p : Place) (w : WorkerId) (d : ℕ) (s : State) : Prop where
  reached : s.Reached cfg p.jobId
  worker : ∃ x, s.workers w = some x ∧ x.up = true ∧ x.stopping = false
  dispatcher : ∃ o, s.dispatchers d = some ⟨o, false, true⟩
  group : s.stream.group.isSome
  inner : ∀ k, k = .job p.jobId ∨ k = .out p → ∀ sid, s.mysql.locks k = some sid → sid.inner
  live : ∃ r, s.mysql.store.job? p.jobId = some r ∧ ¬ r.terminal ∧ r.generation = p.generation
  listed : (s.mysql.store.out? p).isSome

section Going

variable {cfg : Config} {s s' : State} {w : WorkerId} {es : List Event} {a : Action} {d : ℕ}
  {p : Place}

theorem Working.inner {sid : Sid} {now : ℕ} (h : Working s (.exec sid now)) : sid.inner := by
  cases h
  assumption

/-- What the workers do keeps them going, until the job is over. -/
theorem Going.step (h : Going cfg p w d s) (hw : Working s a) (hs : s.step cfg a = some (s', es)) :
    Going cfg p w d s' ∨ s'.Over p.jobId := by
  have hst := step_cases hs
  obtain ⟨x, hx, hup, hgo⟩ := h.worker
  obtain ⟨o, ho⟩ := h.dispatcher
  obtain ⟨r, hr, hlive, hgen⟩ := h.live
  obtain ⟨q, hq⟩ := Option.isSome_iff_exists.1 h.listed
  have hqp := Tables.out?_place hq
  have hout : q ∈ s.mysql.store.outboxOf p.jobId :=
    (s.mysql.store.mem_outboxOf).2 ⟨Tables.out?_mem hq, by rw [hqp]⟩
  -- The row of the job stays in its generation, and the row of the outbox stays.
  obtain ⟨r', hr', hgen', q', hq', hplace⟩ : ∃ r', s'.mysql.store.job? p.jobId = some r' ∧
      r'.generation = r.generation ∧ ∃ q' ∈ s'.mysql.store.outboxOf p.jobId, q'.place = p := by
    rcases hst.view h.reached.kept p.jobId with
      ⟨hsame, -⟩ | ⟨_, _, _, _, _, _, _, -, -, hchange, -⟩
    · have hsame' : s'.mysql.store.outboxOf p.jobId = s.mysql.store.outboxOf p.jobId :=
        congrArg JobView.outbox hsame
      exact ⟨r, (congrArg JobView.row hsame).trans hr, rfl, q, hsame' ▸ hout, hqp⟩
    · obtain ⟨r', hr', hgen'⟩ := hchange.generation_kept hr hlive (h.reached.bounded hr).1
      obtain ⟨q', hq', -, hplace, -⟩ := hchange.outbox_kept hr hlive hout (by rw [hqp, hgen])
      exact ⟨r', hr', hgen', q', hq', hplace.trans hqp⟩
  by_cases hover : r'.terminal
  · exact .inr ⟨r', hr', hover⟩
  · refine .inl ⟨h.reached.step hs, hst.works hw hx hup hgo, hst.dispatches hw ho,
      hst.group hw h.group, fun k hk sid hlock => ?_, ⟨r', hr', hover, hgen'.trans hgen⟩, ?_⟩
    · rcases hst.locks hlock with hlock | ⟨now, rfl⟩
      · exact h.inner k hk sid hlock
      · exact hw.inner
    · have hmem := ((s'.mysql.store.mem_outboxOf).1 hq').1
      exact hplace ▸ Option.isSome_iff_exists.2 ⟨q', Tables.out?_of_mem hmem⟩

theorem Going.onward (h : Going cfg p w d s) (ho : Onward cfg s es s') :
    Going cfg p w d s' ∨ s.Heals cfg p.jobId := by
  induction ho with
  | refl => exact .inl h
  | step ho hw hs ih =>
    rcases ih with hgoing | hheals
    · exact (hgoing.step hw hs).imp_right fun hover => ⟨_, _, ho.step hw hs, .inr hover⟩
    · exact .inr hheals

end Going

end ScaleQueue
