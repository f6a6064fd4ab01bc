import ScaleQueue.JobService
import ScaleQueue.Locking.Server
import ScaleQueue.Worker

/-!
# The running system

The database, the stream, and any number of workers, dispatchers and API calls,
taking steps in any order (`step`). Statements run one at a time, sessions may
fail and clients may lose theirs at any point, workers crash and are stopped,
and anybody may add messages to the stream or delete it.

What happens is recorded as events: which sessions were closed and how, what was
published, delivered, run and acknowledged, and what the API answered.
-/

namespace ScaleQueue

open Locking

/-- What a session was opened for. -/
inductive Op
  | claim (id : JobId) (generation : ℕ) (owner : WorkerId)
  | renew (j : Job)
  | finish (j : Job) (e : Ending) (message : String) (delay : ℕ)
  | dispatch
  | createJob (j : NewJob)
  | requeueJob (id : JobId)
  | selectById (id : JobId)
  | selectByRequestKey (h : Text)

/-- The transaction, statement by statement. -/
def Op.script (cfg : Config) : Op → Tx
  | .claim id generation owner => ScaleQueue.claim cfg.lease id generation owner
  | .renew j => ScaleQueue.renew cfg.lease j
  | .finish j e message delay => ScaleQueue.finish j e.status message delay
  | .dispatch => ScaleQueue.dispatch
  | .createJob j => ScaleQueue.createJob j
  | .requeueJob id => ScaleQueue.requeueJob id
  | .selectById id => ScaleQueue.selectById id
  | .selectByRequestKey h => ScaleQueue.selectByRequestKey h

/-- The session is a single statement: once sent, it runs whether its client
    waits for it or not. -/
def Op.autocommit : Op → Bool
  | .renew _ => true
  | .selectById _ => true
  | .selectByRequestKey _ => true
  | _ => false

theorem Op.script_obeys (cfg : Config) (op : Op) : (op.script cfg).Obeys := by
  cases op with
  | claim => exact claim_obeys _ _ _ _
  | renew => exact renew_obeys _ _
  | finish => exact finish_obeys _ _ _ _
  | dispatch => exact dispatch_obeys
  | createJob => exact createJob_obeys _
  | requeueJob => exact requeueJob_obeys _
  | selectById => exact selectById_obeys _
  | selectByRequestKey => exact selectByRequestKey_obeys _

/-- A call of the API. -/
inductive Call
  | creating (j : NewJob) (sid : Sid)
  /-- The job was created, and is read back. -/
  | fetching (j : NewJob) (sid : Sid)
  /-- The request key was taken, and its job is read. -/
  | resolving (j : NewJob) (sid : Sid)
  | requeueing (id : JobId) (sid : Sid)
  /-- The job was requeued, and is read back. -/
  | refetching (id : JobId) (sid : Sid)
  | answered (r : Response)

/-- The loop that calls `Dispatch`. -/
structure Dispatcher where
  session : Option Sid
  stopping : Bool
  up : Bool

/-- The database server, with its sessions. -/
abbrev MySQL := Server Tables Key Write OutboxRow Answer Op Sid

/-- The methods of `Store` that `ProcessJob` calls. -/
inductive Method
  | claim
  | renew
  | finish
  deriving DecidableEq

/-- What happens in a step, in the database, in the stream, or between a process and these. -/
inductive Event
  | closed (sid : Sid) (c : Closed Answer Op)
  /-- The outbox row was published as a stream entry. -/
  | published (o : OutboxRow) (e : Redis.Entry Message)
  /-- `handle` was called. -/
  | delivered (w : WorkerId) (n : ℕ) (e : Redis.Entry Message)
  /-- The handler for the job was called. -/
  | started (w : WorkerId) (n : ℕ) (j : Job)
  /-- The handler returned, or panicked. -/
  | returned (w : WorkerId) (n : ℕ) (j : Job) (result : Result)
  /-- A method of `Store` returned in a call of `handle`; no answer is an error. -/
  | reported (w : WorkerId) (n : ℕ) (m : Method) (answer : Option Answer)
  /-- The context of a call of `handle` was cancelled. -/
  | cancelled (w : WorkerId) (n : ℕ)
  /-- `handle` ended without acknowledging its message. -/
  | retained (w : WorkerId) (n : ℕ)
  /-- `XACK` was issued; `j` is the job that this delivery claimed, if it did. -/
  | acked (w : WorkerId) (n : ℕ) (e : Redis.Entry Message) (j : Option Job)
  | called (c : ℕ) (j : NewJob)
  | responded (c : ℕ) (r : Response)

/-- The database, the stream, and all the processes at work on them. -/
structure State where
  mysql : MySQL
  stream : Redis.Key Message WorkerId
  workers : WorkerId → Option Worker
  dispatchers : ℕ → Option Dispatcher
  calls : ℕ → Option Call
  /-- How many sessions were opened. -/
  opened : ℕ
  /-- How many times `handle` was called. -/
  handled : ℕ

/-- What a component does besides changing its own state. -/
structure Effects where
  /-- The transaction left. -/
  leaves : Option Sid := none
  /-- The session opened. -/
  opens : Option (Party × Op) := none
  stream : Option (Redis.Key Message WorkerId) := none
  /-- The number of calls of `handle`. -/
  handles : ℕ := 0
  events : List Event := []

/-- What a worker does. -/
inductive WorkerAct
  /-- The head of the loop in `Consumer.Start`; `XAUTOCLAIM` may fail. -/
  | loop (reachable : Bool)
  /-- The next message of a recovery. -/
  | recover
  /-- `XREADGROUP`, which may fail. -/
  | read (reachable : Bool)
  /-- A tick of the heartbeat. -/
  | tick
  | result (r : Result)
  /-- What `ProcessJob` does once the handler and the heartbeat have ended. -/
  | settle (jitter : ℕ)
  /-- `XACK`, which takes effect or not. -/
  | ack (applied : Bool)
  /-- The job timeout. -/
  | expire
  | stop
  /-- The shutdown timeout. -/
  | cancel
  | crash

/-- The steps that can be taken, each by one of the parties or by the world around them. Any
    order of them is a run. -/
inductive Action
  | advance (d : ℕ)
  /-- The next statement of a session runs; it read the clock at `now`. -/
  | exec (sid : Sid) (now : ℕ)
  | close (sid : Sid) (how : Closing)
  /-- The client of a session gets an error, whatever becomes of the session. -/
  | giveUp (sid : Sid)
  /-- `XADD` in a `Dispatch`: whether it took effect, and whether it succeeded. -/
  | publish (sid : Sid) (added ok : Bool)
  | startWorker (w : WorkerId)
  | worker (w : WorkerId) (a : WorkerAct)
  | startDispatcher (d : ℕ)
  | dispatch (d : ℕ)
  | stopDispatcher (d : ℕ)
  | crashDispatcher (d : ℕ)
  /-- `POST /jobs`, with the id that `uuidv4` will return. -/
  | createJob (c : ℕ) (clientId : Text) (header : Option Text) (input : CreateJobInput) (id : JobId)
  | requeueJob (c : ℕ) (id : JobId)
  /-- Somebody adds a message to the stream. -/
  | inject (m : Message)
  /-- The stream is lost. -/
  | dropStream

/-- Nothing has happened yet: no job was created, and the stream does not exist. -/
def State.fresh : State where
  mysql := ⟨.empty, 0, 0, fun _ => none, fun _ => none⟩
  stream := ⟨none, 1⟩
  workers := fun _ => none
  dispatchers := fun _ => none
  calls := fun _ => none
  opened := 0
  handled := 0

/-! ## Workers -/

namespace Worker

variable (cfg : Config) (s : State) (w : WorkerId) (x : Worker)

/-- `Consumer.handle`. Its context is not cancelled yet: nothing is handled after
    `stop`. -/
def handle (e : Redis.Entry Message) : Worker × Effects :=
  match decode e.values with
  | none =>
    ({ x with phase := .idle },
      { handles := 1, events := [.delivered w s.handled e, .retained w s.handled] })
  | some (id, generation) =>
    let h : Handle :=
      ⟨s.handled, e, id, generation, s.mysql.clock + cfg.jobTimeout, false⟩
    ({ x with phase := .claiming h ⟨.worker w, s.opened⟩ },
      { opens := some (.worker w, .claim id generation w), handles := 1
        events := [.delivered w s.handled e] })

/-- `handle` returned without acknowledging the message, after the events. -/
def retain (h : Handle) (es : List Event := []) : Worker × Effects :=
  ({ x with phase := .idle }, { events := es ++ [.retained w h.number] })

/-- The context of the delivery in hand is cancelled, and its transaction is
    rolled back unless a commit is on its way. -/
def abandon (h : Handle) : Worker × Effects :=
  ({ x with phase := x.phase.cancel },
    { leaves := x.phase.session?, events := [.cancelled w h.number] })

/-- One step of the worker, if it can be made now. -/
def act : WorkerAct → Option (Worker × Effects)
  | .loop reachable =>
    match x.point, x.phase with
    | .top, .idle =>
      if x.stopping then some ({ x with up := false }, {})
      else if s.mysql.clock < x.next then some ({ x with point := .reading }, {})
      else
        let later := { x with point := .reading, next := s.mysql.clock + cfg.recoveryInterval }
        if reachable then
          match s.stream.xautoclaim w s.mysql.clock cfg.recoveryIdle x.cursor 100 with
          | none => some (later, {})
          | some (es, cursor, key) =>
            some ({ x with point := .recovering es, cursor := cursor }, { stream := some key })
        else some (later, {})
    | _, _ => none
  | .recover =>
    match x.point, x.phase with
    | .recovering batch, .idle =>
      let later := { x with point := .reading, next := s.mysql.clock + cfg.recoveryInterval }
      match batch with
      | [] => some (later, {})
      | e :: es =>
        if x.stopping then some (later, {})
        else some ({ x with point := .recovering es }.handle cfg s w e)
    | _, _ => none
  | .read reachable =>
    match x.point, x.phase with
    | .reading, .idle =>
      let answer := if reachable then s.stream.xreadgroup w s.mysql.clock else none
      match answer with
      | none => some (if x.stopping then { x with up := false } else { x with point := .top }, {})
      | some (e, key) =>
        if x.stopping then some ({ x with up := false }, { stream := some key })
        else
          match e with
          | none => some ({ x with point := .top }, {})
          | some e =>
            let (x', fx) := { x with point := .top }.handle cfg s w e
            some (x', { fx with stream := some key })
    | _, _ => none
  | .tick =>
    match x.phase with
    | .running h j result .waiting =>
      if h.done then none
      else some ({ x with phase := .running h j result (.renewing ⟨.beat w, s.opened⟩) },
        { opens := some (.beat w, .renew j) })
    | _ => none
  | .result r =>
    match x.phase with
    | .running h j none beat =>
      if r = .panicked then
        some ({ x with phase := .idle },
          { events := [.returned w h.number j r, .retained w h.number] })
      else
        some ({ x with phase := .running h j (some r) beat },
          { events := [.returned w h.number j r] })
    | _ => none
  | .settle jitter =>
    match x.phase with
    | .running h _ (some _) .failed => some (x.retain w h)
    | .running h j (some r) .waiting =>
      if h.done then some (x.retain w h)
      else
        match outcome j r jitter with
        | none => none
        | some (e, message, delay) =>
          some ({ x with phase := .finishing h j ⟨.worker w, s.opened⟩ },
            { opens := some (.worker w, .finish j e message delay) })
    | _ => none
  | .ack applied =>
    match x.phase with
    | .acking h j =>
      some ({ x with phase := .idle },
        { stream := if applied then some (s.stream.xack h.entry.id) else none
          events := [.acked w h.number h.entry j] })
    | _ => none
  | .expire =>
    match x.phase.handle? with
    | some h => if h.deadline ≤ s.mysql.clock then some (x.abandon w h) else none
    | none => none
  | .stop => some ({ x with stopping := true }, {})
  | .cancel =>
    match x.phase.handle? with
    | some h => if x.stopping then some (x.abandon w h) else none
    | none => none
  | .crash => some ({ x with up := false, phase := .idle }, { leaves := x.phase.session? })

/-- `Claim` returned. -/
def claimReturned (h : Handle) (answer : Option Answer) : Worker × Effects :=
  let report : Event := .reported w h.number .claim answer
  match answer with
  | some (.job j) =>
    if j.type ∈ registry then
      ({ x with phase := .running h j none .waiting },
        { events := [report, .started w h.number j] })
    else
      ({ x with phase := .running h j (some (unregistered j.type)) .waiting },
        { events := [report] })
  | some (.noJob _) => ({ x with phase := .acking h none }, { events := [report] })
  | _ => x.retain w h [report]

/-- `Finish` returned. `Commit` looks at the context before anything else: once it is
    cancelled `Finish` fails, whatever becomes of its transaction, and a
    cancellation that comes later comes after the commit. -/
def finishReturned (h : Handle) (j : Job) (answer : Option Answer) : Worker × Effects :=
  let answer := if h.done then none else answer
  let report : Event := .reported w h.number .finish answer
  match answer with
  | some .done => ({ x with phase := .acking h (some j) }, { events := [report] })
  | _ => x.retain w h [report]

/-- `Renew` returned. -/
def renewReturned (h : Handle) (j : Job) (result : Option Result) (answer : Option Answer) :
    Worker × Effects :=
  let report : Event := .reported w h.number .renew answer
  match answer with
  | some .done => ({ x with phase := .running h j result .waiting }, { events := [report] })
  | _ => ({ x with phase := .running h j result .failed }, { events := [report] })

/-- The session `sid` returned, if the worker waits for it. -/
def returned (sid : Sid) (answer : Option Answer) : Option (Worker × Effects) :=
  match x.phase with
  | .claiming h sid' => if sid' = sid then some (x.claimReturned w h answer) else none
  | .finishing h j sid' => if sid' = sid then some (x.finishReturned w h j answer) else none
  | .running h j result (.renewing sid') =>
    if sid' = sid then some (x.renewReturned w h j result answer) else none
  | _ => none

end Worker

/-! ## Calls of the API -/

namespace Call

/-- The session that the call waits for. -/
def session? : Call → Option Sid
  | .creating _ sid => some sid
  | .fetching _ sid => some sid
  | .resolving _ sid => some sid
  | .requeueing _ sid => some sid
  | .refetching _ sid => some sid
  | .answered _ => none

variable (opened c : ℕ)

/-- The call answers. -/
def respond (r : Response) : Call × Effects := (.answered r, { events := [.responded c r] })

/-- A query of the call returned; no answer is an error. -/
def proceed : Call → Option Answer → Call × Effects
  | .creating j _, some .done =>
    (.fetching j ⟨.call c, opened⟩, { opens := some (.call c, .selectById j.id) })
  | .creating j _, some (.error .dupEntry) =>
    match j.request with
    | some (h, _) =>
      (.resolving j ⟨.call c, opened⟩, { opens := some (.call c, .selectByRequestKey h) })
    | none => respond c .internal
  | .fetching _ _, some (.row (some r)) => respond c (.accepted r)
  | .resolving j _, some (.row (some r)) =>
    if r.requestHash ≠ j.request.map Prod.snd then respond c .conflict
    else respond c (.accepted r)
  | .requeueing id _, some .done =>
    (.refetching id ⟨.call c, opened⟩, { opens := some (.call c, .selectById id) })
  | .requeueing _ _, some (.error .jobNotFound) => respond c .notFound
  | .requeueing _ _, some (.error .jobNotRequeueable) => respond c .notRequeueable
  | .refetching _ _, some (.row (some r)) => respond c (.requeued r)
  | _, _ => respond c .internal

end Call

/-! ## The system -/

/-- What the client of a closed session is told. -/
def answerOf : Closed Answer Op → Option Answer
  | .committed _ r => some r
  | .aborted _ r => some r
  | .failed _ => none

/-- A new job, as `createJob` makes it of a request. -/
def newJob (cfg : Config) (input : CreateJobInput) (id : JobId) (key : Option Text) : NewJob :=
  ⟨id, input, key.map fun k => (cfg.digest k, cfg.digest (canonical input.toJson))⟩

namespace State

variable (cfg : Config) (s : State)

/-- The worker is in this state. -/
def setWorker (w : WorkerId) (x : Worker) : State :=
  { s with workers := Function.update s.workers w (some x) }

/-- The dispatcher is in this state. -/
def setDispatcher (d : ℕ) (x : Dispatcher) : State :=
  { s with dispatchers := Function.update s.dispatchers d (some x) }

/-- The call is in this state. -/
def setCall (c : ℕ) (x : Call) : State := { s with calls := Function.update s.calls c (some x) }

/-- The database after a transaction was left. -/
def leave : Option Sid → MySQL
  | none => s.mysql
  | some sid => s.mysql.leave sid

/-- The effects of a component's step. -/
def affect (fx : Effects) : State :=
  { s with
    mysql := match fx.opens with
      | none => s.leave fx.leaves
      | some (p, op) => (s.leave fx.leaves).begin ⟨p, s.opened⟩ (·.script cfg) op
    stream := fx.stream.getD s.stream
    opened := s.opened + if fx.opens.isSome then 1 else 0
    handled := s.handled + fx.handles }

/-- The client of `sid`, if it still waits, is told the answer. -/
def deliver (sid : Sid) (answer : Option Answer) : State × List Event :=
  match sid.party with
  | .worker w =>
    match (s.workers w).bind fun x => x.returned w sid answer with
    | none => (s, [])
    | some (x, fx) => ((s.affect cfg fx).setWorker w x, fx.events)
  | .beat w =>
    match (s.workers w).bind fun x => x.returned w sid answer with
    | none => (s, [])
    | some (x, fx) => ((s.affect cfg fx).setWorker w x, fx.events)
  | .dispatcher d =>
    match s.dispatchers d with
    | none => (s, [])
    | some x =>
      if x.session = some sid then (s.setDispatcher d { x with session := none }, []) else (s, [])
  | .call c =>
    match s.calls c with
    | none => (s, [])
    | some x =>
      if x.session? = some sid then
        let (x', fx) := Call.proceed s.opened c x answer
        ((s.affect cfg fx).setCall c x', fx.events)
      else (s, [])

/-- One step of the system, if it can be made now, and what happened in it. -/
def step : Action → Option (State × List Event)
  | .advance d => some ({ s with mysql := s.mysql.advance d }, [])
  | .exec sid now => (s.mysql.exec sid now).map fun db => ({ s with mysql := db }, [])
  | .close sid how =>
    (s.mysql.close sid how).map fun (db, c) =>
      let (s', es) := deliver cfg { s with mysql := db } sid (answerOf c)
      (s', .closed sid c :: es)
  | .giveUp sid =>
    (s.mysql.sessions sid).map fun x =>
      let db := if x.op.autocommit then s.mysql else s.mysql.leave sid
      deliver cfg { s with mysql := db } sid none
  | .publish sid added ok =>
    match s.mysql.waiting sid, s.mysql.answer sid ok with
    | some o, some db =>
      if added then
        some ({ s with mysql := db, stream := s.stream.xadd (encode o.place) },
          [.published o ⟨s.stream.nextId, encode o.place⟩])
      else if ok then none
      else some ({ s with mysql := db }, [])
    | _, _ => none
  | .startWorker w =>
    match s.workers w with
    | some _ => none
    | none => some
        ({ s.setWorker w (.start s.mysql.clock) with
          stream := s.stream.xgroupCreateMkStream }, [])
  | .worker w a =>
    match s.workers w with
    | none => none
    | some x =>
      if x.up then
        (x.act cfg s w a).map fun (x', fx) => ((s.affect cfg fx).setWorker w x', fx.events)
      else none
  | .startDispatcher d =>
    match s.dispatchers d with
    | some _ => none
    | none => some (s.setDispatcher d ⟨none, false, true⟩, [])
  | .dispatch d =>
    match s.dispatchers d with
    | some ⟨none, false, true⟩ => some
        ((s.affect cfg { opens := some (.dispatcher d, .dispatch) }).setDispatcher d
          ⟨some ⟨.dispatcher d, s.opened⟩, false, true⟩, [])
    | _ => none
  | .stopDispatcher d =>
    (s.dispatchers d).map fun x => (s.setDispatcher d { x with stopping := true }, [])
  | .crashDispatcher d =>
    (s.dispatchers d).map fun x =>
      ((s.affect cfg { leaves := x.session }).setDispatcher d
        { x with session := none, up := false }, [])
  | .createJob c clientId header input id =>
    match s.calls c with
    | some _ => none
    | none =>
      match requestKeyOf clientId header with
      | none => some (s.setCall c (.answered .invalid), [.responded c .invalid])
      | some key =>
        let j := newJob cfg input id key
        some ((s.affect cfg { opens := some (.call c, .createJob j) }).setCall c
          (.creating j ⟨.call c, s.opened⟩), [.called c j])
  | .requeueJob c id =>
    match s.calls c with
    | some _ => none
    | none => some
        ((s.affect cfg { opens := some (.call c, .requeueJob id) }).setCall c
          (.requeueing id ⟨.call c, s.opened⟩), [])
  | .inject m => some ({ s with stream := s.stream.xadd m }, [])
  | .dropStream => some ({ s with stream := s.stream.del }, [])

end State

section Effects

variable {cfg : Config} {s : State}

@[simp] theorem affect_workers (fx : Effects) : (s.affect cfg fx).workers = s.workers := rfl
@[simp] theorem affect_dispatchers (fx : Effects) :
    (s.affect cfg fx).dispatchers = s.dispatchers := rfl
@[simp] theorem affect_calls (fx : Effects) : (s.affect cfg fx).calls = s.calls := rfl
@[simp] theorem affect_stream (fx : Effects) :
    (s.affect cfg fx).stream = fx.stream.getD s.stream := rfl
@[simp] theorem affect_handled (fx : Effects) :
    (s.affect cfg fx).handled = s.handled + fx.handles := rfl

theorem affect_opened (fx : Effects) :
    (s.affect cfg fx).opened = s.opened + if fx.opens.isSome then 1 else 0 := rfl

/-- An effect leaves the store alone, and its time. -/
theorem affect_store (fx : Effects) :
    (s.affect cfg fx).mysql.store = s.mysql.store ∧
      (s.affect cfg fx).mysql.clock = s.mysql.clock ∧
      (s.affect cfg fx).mysql.locks = s.mysql.locks := by
  unfold State.affect State.leave
  dsimp only
  cases fx.opens <;> cases fx.leaves <;> exact ⟨rfl, rfl, rfl⟩

end Effects

/-! ## What a step can do -/

section Cases

variable {cfg : Config} {s : State}

/-- What a call does once a query of it has returned. -/
inductive Proceeded (n c : ℕ) : Call → Option Answer → Call → Effects → Prop
  | fetch {j sid} : Proceeded n c (.creating j sid) (some .done) (.fetching j ⟨.call c, n⟩)
      { opens := some (.call c, .selectById j.id) }
  | resolve {j sid h hash} (hj : j.request = some (h, hash)) :
      Proceeded n c (.creating j sid) (some (.error .dupEntry)) (.resolving j ⟨.call c, n⟩)
        { opens := some (.call c, .selectByRequestKey h) }
  | accepted {j sid r} : Proceeded n c (.fetching j sid) (some (.row (some r)))
      (.answered (.accepted r)) { events := [.responded c (.accepted r)] }
  | resolved {j sid r} (hr : r.requestHash = j.request.map Prod.snd) :
      Proceeded n c (.resolving j sid) (some (.row (some r)))
        (.answered (.accepted r)) { events := [.responded c (.accepted r)] }
  | conflict {j sid r} (hr : r.requestHash ≠ j.request.map Prod.snd) :
      Proceeded n c (.resolving j sid) (some (.row (some r)))
        (.answered .conflict) { events := [.responded c .conflict] }
  | refetch {id sid} : Proceeded n c (.requeueing id sid) (some .done)
      (.refetching id ⟨.call c, n⟩) { opens := some (.call c, .selectById id) }
  | notFound {id sid} : Proceeded n c (.requeueing id sid) (some (.error .jobNotFound))
      (.answered .notFound) { events := [.responded c .notFound] }
  | notRequeueable {id sid} :
      Proceeded n c (.requeueing id sid) (some (.error .jobNotRequeueable))
        (.answered .notRequeueable) { events := [.responded c .notRequeueable] }
  | requeued {id sid r} : Proceeded n c (.refetching id sid) (some (.row (some r)))
      (.answered (.requeued r)) { events := [.responded c (.requeued r)] }
  | internal {x a} :
      Proceeded n c x a (.answered .internal) { events := [.responded c .internal] }

theorem proceed_cases {n c : ℕ} {x x' : Call} {a : Option Answer} {fx : Effects}
    (h : Call.proceed n c x a = (x', fx)) : Proceeded n c x a x' fx := by
  unfold Call.proceed at h
  split at h
  · obtain ⟨rfl, rfl⟩ := Prod.mk.inj h
    exact .fetch
  · split at h
    · obtain ⟨rfl, rfl⟩ := Prod.mk.inj h
      exact .resolve ‹_›
    · obtain ⟨rfl, rfl⟩ := Prod.mk.inj h
      exact .internal
  · obtain ⟨rfl, rfl⟩ := Prod.mk.inj h
    exact .accepted
  · split at h
    · obtain ⟨rfl, rfl⟩ := Prod.mk.inj h
      exact .conflict ‹_›
    · obtain ⟨rfl, rfl⟩ := Prod.mk.inj h
      exact .resolved (not_ne_iff.1 ‹_›)
  · obtain ⟨rfl, rfl⟩ := Prod.mk.inj h
    exact .refetch
  · obtain ⟨rfl, rfl⟩ := Prod.mk.inj h
    exact .notFound
  · obtain ⟨rfl, rfl⟩ := Prod.mk.inj h
    exact .notRequeueable
  · obtain ⟨rfl, rfl⟩ := Prod.mk.inj h
    exact .requeued
  · obtain ⟨rfl, rfl⟩ := Prod.mk.inj h
    exact .internal

/-- What the delivery of an answer can do. -/
inductive Delivered (cfg : Config) (s : State) (sid : Sid) (a : Option Answer) :
    State → List Event → Prop
  | nobody (hw : ∀ w x, sid.party = .worker w ∨ sid.party = .beat w → s.workers w = some x →
        x.returned w sid a = none)
      (hd : ∀ d x, sid.party = .dispatcher d → s.dispatchers d = some x → x.session ≠ some sid)
      (hc : ∀ c x, sid.party = .call c → s.calls c = some x → x.session? ≠ some sid) :
      Delivered cfg s sid a s []
  | worker {w : WorkerId} {x x' : Worker} {fx : Effects}
      (hparty : sid.party = .worker w ∨ sid.party = .beat w) (hw : s.workers w = some x)
      (hx : x.returned w sid a = some (x', fx)) :
      Delivered cfg s sid a ((s.affect cfg fx).setWorker w x') fx.events
  | dispatcher {d : ℕ} {x : Dispatcher} (hparty : sid.party = .dispatcher d)
      (hd : s.dispatchers d = some x) (hx : x.session = some sid) :
      Delivered cfg s sid a (s.setDispatcher d { x with session := none }) []
  | call {c : ℕ} {x x' : Call} {fx : Effects} (hparty : sid.party = .call c)
      (hc : s.calls c = some x) (hx : x.session? = some sid)
      (hp : Call.proceed s.opened c x a = (x', fx)) :
      Delivered cfg s sid a ((s.affect cfg fx).setCall c x') fx.events

theorem deliver_cases (sid : Sid) (a : Option Answer) :
    Delivered cfg s sid a (s.deliver cfg sid a).1 (s.deliver cfg sid a).2 := by
  unfold State.deliver
  split
  · rename_i w hp
    split
    · rename_i hnone
      refine .nobody (fun w' x hw' hx => ?_) (by simp [hp]) (by simp [hp])
      obtain rfl : w = w' := by simpa [hp] using hw'
      simpa [hx] using hnone
    · rename_i x' fx hx
      obtain ⟨x, hw, hx⟩ := Option.bind_eq_some_iff.1 hx
      exact .worker (.inl hp) hw hx
  · rename_i w hp
    split
    · rename_i hnone
      refine .nobody (fun w' x hw' hx => ?_) (by simp [hp]) (by simp [hp])
      obtain rfl : w = w' := by simpa [hp] using hw'
      simpa [hx] using hnone
    · rename_i x' fx hx
      obtain ⟨x, hw, hx⟩ := Option.bind_eq_some_iff.1 hx
      exact .worker (.inr hp) hw hx
  · rename_i d hp
    have same {d' : ℕ} (hd' : sid.party = .dispatcher d') : d' = d := by
      simpa [hp] using hd'.symm
    split
    · rename_i hnone
      refine .nobody (by simp [hp]) (fun d' x hd' hx => ?_) (by simp [hp])
      simp [same hd', hnone] at hx
    · rename_i x hx
      split
      · exact .dispatcher hp hx ‹_›
      · rename_i hne
        refine .nobody (by simp [hp]) (fun d' x' hd' hx' => ?_) (by simp [hp])
        obtain rfl : x = x' := by simpa [same hd', hx] using hx'
        exact hne
  · rename_i c hp
    have same {c' : ℕ} (hc' : sid.party = .call c') : c' = c := by
      simpa [hp] using hc'.symm
    split
    · rename_i hnone
      refine .nobody (by simp [hp]) (by simp [hp]) fun c' x hc' hx => ?_
      simp [same hc', hnone] at hx
    · rename_i x hx
      split
      · exact .call hp hx ‹_› rfl
      · rename_i hne
        refine .nobody (by simp [hp]) (by simp [hp]) fun c' x' hc' hx' => ?_
        obtain rfl : x = x' := by simpa [same hc', hx] using hx'
        exact hne

/-- The database after the client of session `x` gave up. -/
def State.forsake (s : State) (sid : Sid) (x : Session Tables Key Write OutboxRow Answer Op) :
    State := { s with mysql := if x.op.autocommit then s.mysql else s.mysql.leave sid }

/-- What a step can do. -/
inductive Stepped (cfg : Config) (s : State) : Action → State → List Event → Prop
  | advance (d : ℕ) : Stepped cfg s (.advance d) { s with mysql := s.mysql.advance d } []
  | exec {sid : Sid} {now : ℕ} {db : MySQL} (h : s.mysql.exec sid now = some db) :
      Stepped cfg s (.exec sid now) { s with mysql := db } []
  | close {sid : Sid} {how : Closing} {db : MySQL} {c : Closed Answer Op} {s' : State}
      {es : List Event} (h : s.mysql.close sid how = some (db, c))
      (hd : Delivered cfg { s with mysql := db } sid (answerOf c) s' es) :
      Stepped cfg s (.close sid how) s' (.closed sid c :: es)
  | giveUp {sid : Sid} {x : Session Tables Key Write OutboxRow Answer Op} {s' : State}
      {es : List Event} (h : s.mysql.sessions sid = some x)
      (hd : Delivered cfg (s.forsake sid x) sid none s' es) : Stepped cfg s (.giveUp sid) s' es
  | publish {sid : Sid} {ok : Bool} {o : OutboxRow} {db : MySQL}
      (ho : s.mysql.waiting sid = some o) (h : s.mysql.answer sid ok = some db) :
      Stepped cfg s (.publish sid true ok)
        { s with mysql := db, stream := s.stream.xadd (encode o.place) }
        [.published o ⟨s.stream.nextId, encode o.place⟩]
  | publishLost {sid : Sid} {o : OutboxRow} {db : MySQL} (ho : s.mysql.waiting sid = some o)
      (h : s.mysql.answer sid false = some db) :
      Stepped cfg s (.publish sid false false) { s with mysql := db } []
  | startWorker {w : WorkerId} (h : s.workers w = none) :
      Stepped cfg s (.startWorker w)
        { s.setWorker w (.start s.mysql.clock) with stream := s.stream.xgroupCreateMkStream } []
  | worker {w : WorkerId} {a : WorkerAct} {x x' : Worker} {fx : Effects}
      (hw : s.workers w = some x) (hup : x.up = true) (hx : x.act cfg s w a = some (x', fx)) :
      Stepped cfg s (.worker w a) ((s.affect cfg fx).setWorker w x') fx.events
  | startDispatcher {d : ℕ} (h : s.dispatchers d = none) :
      Stepped cfg s (.startDispatcher d) (s.setDispatcher d ⟨none, false, true⟩) []
  | dispatch {d : ℕ} (h : s.dispatchers d = some ⟨none, false, true⟩) :
      Stepped cfg s (.dispatch d)
        ((s.affect cfg { opens := some (.dispatcher d, .dispatch) }).setDispatcher d
          ⟨some ⟨.dispatcher d, s.opened⟩, false, true⟩) []
  | stopDispatcher {d : ℕ} {x : Dispatcher} (h : s.dispatchers d = some x) :
      Stepped cfg s (.stopDispatcher d) (s.setDispatcher d { x with stopping := true }) []
  | crashDispatcher {d : ℕ} {x : Dispatcher} (h : s.dispatchers d = some x) :
      Stepped cfg s (.crashDispatcher d)
        ((s.affect cfg { leaves := x.session }).setDispatcher d
          { x with session := none, up := false }) []
  | badKey {c : ℕ} {clientId : Text} {header : Option Text} {input : CreateJobInput} {id : JobId}
      (h : s.calls c = none) (hkey : requestKeyOf clientId header = none) :
      Stepped cfg s (.createJob c clientId header input id) (s.setCall c (.answered .invalid))
        [.responded c .invalid]
  | createJob {c : ℕ} {clientId : Text} {header key : Option Text} {input : CreateJobInput}
      {id : JobId} (h : s.calls c = none) (hkey : requestKeyOf clientId header = some key) :
      Stepped cfg s (.createJob c clientId header input id)
        ((s.affect cfg { opens := some (.call c, .createJob (newJob cfg input id key)) }).setCall c
          (.creating (newJob cfg input id key) ⟨.call c, s.opened⟩))
        [.called c (newJob cfg input id key)]
  | requeueJob {c : ℕ} {id : JobId} (h : s.calls c = none) :
      Stepped cfg s (.requeueJob c id)
        ((s.affect cfg { opens := some (.call c, .requeueJob id) }).setCall c
          (.requeueing id ⟨.call c, s.opened⟩)) []
  | inject (m : Message) : Stepped cfg s (.inject m) { s with stream := s.stream.xadd m } []
  | dropStream : Stepped cfg s .dropStream { s with stream := s.stream.del } []

theorem step_cases {a : Action} {s' : State} {es : List Event}
    (h : s.step cfg a = some (s', es)) : Stepped cfg s a s' es := by
  cases a with
  | advance d =>
    obtain ⟨rfl, rfl⟩ := Prod.mk.inj (Option.some.inj h)
    exact .advance d
  | exec sid now =>
    obtain ⟨db, hdb, heq⟩ := Option.map_eq_some_iff.1 h
    obtain ⟨rfl, rfl⟩ := Prod.mk.inj heq
    exact .exec hdb
  | close sid how =>
    obtain ⟨⟨db, c⟩, hdb, heq⟩ := Option.map_eq_some_iff.1 h
    obtain ⟨rfl, rfl⟩ := Prod.mk.inj heq
    exact .close hdb (deliver_cases sid _)
  | giveUp sid =>
    obtain ⟨x, hx, heq⟩ := Option.map_eq_some_iff.1 h
    obtain ⟨rfl, rfl⟩ := Prod.mk.inj heq
    exact .giveUp hx (deliver_cases sid _)
  | publish sid added ok =>
    simp only [State.step] at h
    split at h
    · cases added with
      | true =>
        obtain ⟨rfl, rfl⟩ := Prod.mk.inj (Option.some.inj h)
        exact .publish ‹_› ‹_›
      | false =>
        cases ok with
        | true => simp at h
        | false =>
          obtain ⟨rfl, rfl⟩ := Prod.mk.inj (Option.some.inj h)
          exact .publishLost ‹_› ‹_›
    · simp at h
  | startWorker w =>
    simp only [State.step] at h
    split at h
    · simp at h
    · obtain ⟨rfl, rfl⟩ := Prod.mk.inj (Option.some.inj h)
      exact .startWorker ‹_›
  | worker w a =>
    simp only [State.step] at h
    split at h
    · simp at h
    · split at h
      · obtain ⟨⟨x', fx⟩, hx, heq⟩ := Option.map_eq_some_iff.1 h
        obtain ⟨rfl, rfl⟩ := Prod.mk.inj heq
        exact .worker ‹_› ‹_› hx
      · simp at h
  | startDispatcher d =>
    simp only [State.step] at h
    split at h
    · simp at h
    · obtain ⟨rfl, rfl⟩ := Prod.mk.inj (Option.some.inj h)
      exact .startDispatcher ‹_›
  | dispatch d =>
    simp only [State.step] at h
    split at h
    · obtain ⟨rfl, rfl⟩ := Prod.mk.inj (Option.some.inj h)
      exact .dispatch ‹_›
    · simp at h
  | stopDispatcher d =>
    obtain ⟨x, hx, heq⟩ := Option.map_eq_some_iff.1 h
    obtain ⟨rfl, rfl⟩ := Prod.mk.inj heq
    exact .stopDispatcher hx
  | crashDispatcher d =>
    obtain ⟨x, hx, heq⟩ := Option.map_eq_some_iff.1 h
    obtain ⟨rfl, rfl⟩ := Prod.mk.inj heq
    exact .crashDispatcher hx
  | createJob c clientId header input id =>
    simp only [State.step] at h
    split at h
    · simp at h
    · split at h
      · obtain ⟨rfl, rfl⟩ := Prod.mk.inj (Option.some.inj h)
        exact .badKey ‹_› ‹_›
      · obtain ⟨rfl, rfl⟩ := Prod.mk.inj (Option.some.inj h)
        exact .createJob ‹_› ‹_›
  | requeueJob c id =>
    simp only [State.step] at h
    split at h
    · simp at h
    · obtain ⟨rfl, rfl⟩ := Prod.mk.inj (Option.some.inj h)
      exact .requeueJob ‹_›
  | inject m =>
    obtain ⟨rfl, rfl⟩ := Prod.mk.inj (Option.some.inj h)
    exact .inject m
  | dropStream =>
    obtain ⟨rfl, rfl⟩ := Prod.mk.inj (Option.some.inj h)
    exact .dropStream

end Cases

theorem State.step_worker {cfg : Config} {s : State} {w : WorkerId} {x x' : Worker}
    {a : WorkerAct} {fx : Effects} (hw : s.workers w = some x) (hup : x.up = true)
    (hx : x.act cfg s w a = some (x', fx)) :
    s.step cfg (.worker w a) = some ((s.affect cfg fx).setWorker w x', fx.events) := by
  simp only [State.step, hw, if_pos hup, hx, Option.map_some]

/-- A run of the system from `s₀`: the events in it, oldest first, and the state
    it leads to. -/
inductive Run (cfg : Config) (s₀ : State) : List Event → State → Prop
  | refl : Run cfg s₀ [] s₀
  | step {es es' : List Event} {s s' : State} {a : Action} :
      Run cfg s₀ es s → s.step cfg a = some (s', es') → Run cfg s₀ (es ++ es') s'

/-- The actions that can be made, one after the other, and what happened in them. -/
def State.play (cfg : Config) : State → List Action → State × List Event
  | s, [] => (s, [])
  | s, a :: acts =>
    match s.step cfg a with
    | none => s.play cfg acts
    | some (s', es) => ((s'.play cfg acts).1, es ++ (s'.play cfg acts).2)

section Runs

variable {cfg : Config} {s₀ s s' : State} {es es' : List Event}

theorem Run.trans (h : Run cfg s₀ es s) (h' : Run cfg s es' s') : Run cfg s₀ (es ++ es') s' := by
  induction h' with
  | refl => rwa [List.append_nil]
  | step _ hs ih => rw [← List.append_assoc]; exact ih.step hs

theorem Run.play (cfg : Config) (s : State) (acts : List Action) :
    Run cfg s (s.play cfg acts).2 (s.play cfg acts).1 := by
  induction acts generalizing s with
  | nil => exact .refl
  | cons a acts ih =>
    rw [State.play]
    split
    · exact ih s
    · exact (Run.step .refl ‹_›).trans (ih _)

end Runs

/-! ## Courses of action -/

/-- The call `c` creates a job in session `n`. -/
def creating (c n now : ℕ) (input : CreateJobInput) (id : JobId) : List Action :=
  .createJob c [] none input id :: List.replicate 3 (.exec ⟨.call c, n⟩ now) ++
    [.close ⟨.call c, n⟩ .commit]

/-- The dispatcher `d` publishes the next row that is due in session `n`. -/
def dispatching (d n now : ℕ) : List Action :=
  [.dispatch d, .exec ⟨.dispatcher d, n⟩ now, .exec ⟨.dispatcher d, n⟩ now,
    .publish ⟨.dispatcher d, n⟩ true true, .exec ⟨.dispatcher d, n⟩ now,
    .close ⟨.dispatcher d, n⟩ .commit]

/-- The worker `w` reads the next message and claims its job in session `n`. -/
def claiming (w : WorkerId) (n now : ℕ) : List Action :=
  [.worker w (.loop true), .worker w .recover, .worker w (.read true)] ++
    List.replicate 3 (.exec ⟨.worker w, n⟩ now) ++ [.close ⟨.worker w, n⟩ .commit]

/-- The worker `w` ends an attempt with the result, in session `n`. -/
def finishing (w : WorkerId) (n now : ℕ) (r : Result) : List Action :=
  [.worker w (.result r), .worker w (.settle 0)] ++
    List.replicate 4 (.exec ⟨.worker w, n⟩ now) ++
    [.close ⟨.worker w, n⟩ .commit, .worker w (.ack true)]

/-- The call `c` requeues a job in session `n`. -/
def requeueing (c n now : ℕ) (id : JobId) : List Action :=
  .requeueJob c id :: List.replicate 4 (.exec ⟨.call c, n⟩ now) ++ [.close ⟨.call c, n⟩ .commit]

/-- The id of a first job. -/
def firstJob : JobId := ⟨"first", by decide⟩

/-- The id of a second job. -/
def secondJob : JobId := ⟨"second", by decide⟩

/-- The input for a first job. -/
def firstInput : CreateJobInput :=
  .defaults .sendEmail [(ascii "to".toList, .null)] (by simp)
    (by simp [Json.Distinct, Json.DistinctMembers])

/-- A first job is created and published, and delivered to a worker that claims it. -/
def firstClaim : List Action :=
  creating 0 0 0 firstInput firstJob ++ [.startWorker "w", .startDispatcher 0] ++
    dispatching 0 2 0 ++ claiming "w" 3 0

/-- The system after these actions, and what happened. -/
def State.after (acts : List Action) : State × List Event :=
  State.fresh.play (.defaults id) acts

end ScaleQueue
