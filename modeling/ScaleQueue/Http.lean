import ScaleQueue.Answers
import ScaleQueue.Listings
import ScaleQueue.Logs
import ScaleQueue.Simulation
import ScaleQueue.Validation

/-!
# Requests under `/api/v1/jobs`

What becomes of an HTTP request: `apiKeyAuth` looks its key up among the clients, the
routes find its endpoint, and `JobController` calls `JobService` and replies. Requests are
served while everything else runs, and clients may be added or disabled at any time.

A reply tells what happened (`replies_explained`), and nothing is created or requeued
unless a client that was active has asked for it (`mutations_authorized`).
-/

namespace ScaleQueue

open Locking Simulation

/-! ## Calls that come in -/

section Calls

variable {cfg : Config} {s s' s₀ : State} {es : List Event} {sid : Sid} {a : Action} {y : Conn}
  {op : Op} {c : ℕ}

/-- Only a session that a call waits for, or has given up, commits for it. -/
theorem Stepped.silent (hs : Stepped cfg s a s' es) (ht : s.Tended)
    (hc : ∀ x, s.calls c = some x → x ≠ .answered .internal ∧ x.session? = none) :
    commits c es = [] := by
  refine List.filterMap_eq_nil_iff.2 fun e he => ?_
  cases e with
  | closed sid k =>
    obtain ⟨how, db, rfl, hclose, -⟩ := hs.closed_mem he
    obtain ⟨y, hy, -⟩ := Server.close_cases hclose
    have hparty : sid.party ≠ .call c := fun hparty => by
      obtain ⟨x, hx, hwhy⟩ := ht sid y c hy hparty
      obtain ⟨hne, hnone⟩ := hc x hx
      exact hwhy.elim hne fun hsid => by cases hnone.symm.trans hsid
    cases k <;> simp [hparty]
  | _ => rfl

/-- A call that has not come in has committed nothing. -/
theorem Run.uncalled (h : Run cfg s₀ es s) (h₀ : Initial s₀) (hc : s.calls c = none) :
    commits c es = [] := by
  induction h with
  | refl => rfl
  | @step es es' t s' a hrun hs ih =>
    have hstep := step_cases hs
    have hbefore : t.calls c = none := by
      by_contra hne
      obtain ⟨x, hx⟩ := Option.ne_none_iff_exists'.1 hne
      obtain hx' | ⟨_, _, x', _, -, -, -, hx', -⟩ := hstep.proceeds hx
      · cases hc.symm.trans hx'
      · cases hc.symm.trans hx'
    rw [commits_append, ih hbefore, List.nil_append]
    exact hstep.silent (hrun.tended h₀) fun x hx => by cases hbefore.symm.trans hx

/-- Nobody else calls. -/
theorem Stepped.uncalled (hs : Stepped cfg s a s' es) (hc : s.calls c = none)
    (ha : a.call? ≠ some c) : s'.calls c = none := by
  have delivered {t : State} {sid : Sid} {b : Option Answer} {es : List Event}
      (hd : Delivered cfg t sid b s' es) (ht : t.calls c = none) : s'.calls c = none := by
    cases hd with
    | call _ hx =>
      refine (Function.update_of_ne ?_ ..).trans ht
      rintro rfl
      cases ht.symm.trans hx
    | _ => exact ht
  have other {c' : ℕ} {x : Call} (hne : some c' ≠ some c) :
      Function.update s.calls c' (some x) c = none :=
    (Function.update_of_ne (fun h : c = c' => hne (h ▸ rfl)) ..).trans hc
  cases hs with
  | close _ hd => exact delivered hd hc
  | giveUp _ hd => exact delivered hd hc
  | badKey => exact other ha
  | createJob => exact other ha
  | requeueJob => exact other ha
  | _ => exact hc

/-- A call that has answered says no more. -/
theorem Stepped.answered (hs : Stepped cfg s a s' es) {r : Response}
    (hc : s.calls c = some (.answered r)) : s'.calls c = some (.answered r) := by
  refine (hs.proceeds hc).resolve_right ?_
  rintro ⟨_, _, _, _, -, hsid, -⟩
  cases hsid

/-- A call with a bad key does nothing. -/
theorem Run.answered_invalid {es₀ : List Event} (h : Run cfg s es s') (h₀ : Initial s₀)
    (hpre : Run cfg s₀ es₀ s) (hc : s.calls c = some (.answered .invalid)) :
    s'.calls c = some (.answered .invalid) ∧ commits c es = [] := by
  induction h with
  | refl => exact ⟨hc, rfl⟩
  | @step es es' t s' a hrun hs ih =>
    obtain ⟨hbefore, hsilent⟩ := ih
    have hstep := step_cases hs
    refine ⟨hstep.answered hbefore, ?_⟩
    rw [commits_append, hsilent, List.nil_append]
    exact hstep.silent ((hpre.trans hrun).tended h₀) fun x hx => by
      obtain rfl := Option.some.inj (hbefore.symm.trans hx)
      simp [Call.session?]

end Calls

namespace Http

/-! ## Requests and replies -/

/-- A segment of a path, decoded. -/
abbrev Segment := {s : String // s ≠ ""}

/-- What is not in the source: zod, and how the columns of the database compare texts. -/
structure Platform where
  zod : Zod
  /-- `=` on `api_key`. -/
  sameKey : Text → Text → Bool
  /-- `=` on `type`. -/
  sameType : String → String → Bool
  /-- The id that a text is to the column `id`; others, say in another letter case, may be
      the same to it. -/
  idOf : Segment → JobId

/-- Texts are compared as they are. -/
def Platform.plain : Platform where
  zod := .plain
  sameKey a b := a = b
  sameType a b := a = b
  idOf := id

/-- A row of `api_clients`. -/
structure ApiClient where
  id : Text
  name : String
  apiKey : Text
  isActive : Bool

/-- The methods; `other` are those without a route, but `OPTIONS`, which `cors` answers. -/
inductive Method
  | get
  | head
  | post
  | other
  deriving DecidableEq

/-- A request. Its path is that below `/api/v1/jobs`, and its body, if it has one, is what
    `JSON.parse` made of it. -/
structure Request where
  method : Method
  path : List Segment
  /-- `x-api-key`. -/
  apiKey : Option Text
  /-- `Idempotency-Key`. -/
  idempotencyKey : Option Text
  query : ListQuery
  body : Option {b : Json // b.Distinct}

/-- What a reply shows: a job, a page of jobs or of dead jobs, or the log of a job. -/
inductive Data
  | job (r : JobRow)
  | jobs (l : Listing JobRow)
  | deadJobs (l : Listing JobSummary)
  | logs (rows : List LogRow)

/-- A reply: its status, and the members of its body. -/
inductive Reply
  /-- `success` is true. -/
  | data (status : ℕ) (data : Data) (message : Option String)
  /-- `fields` are those of the `details`, each once. -/
  | error (status : ℕ) (success : Option Bool) (error : String) (fields : List String)

/-- A reply that says what went wrong, and no more. -/
def failed (status : ℕ) (error : String) : Reply := .error status (some false) error []

/-! ## Middleware and routes -/

/-- `apiKeyAuth`, when the clients are these, or its query fails (`ok`). It lets the request
    pass as one of a client. -/
def apiKeyAuth (p : Platform) (clients : List ApiClient) (ok : Bool) :
    Option Text → Except Reply Text
  | none | some [] => .error (failed 401 "Missing API key. Pass it as x-api-key header.")
  | some apiKey =>
    if ¬ ok then .error (failed 500 "Auth check failed")
    else
      match clients.find? fun client => p.sameKey client.apiKey apiKey with
      | none => .error (failed 401 "Invalid API key")
      | some client =>
        if ¬ client.isActive then .error (failed 403 "API key is disabled")
        else .ok client.id

/-- The handlers of `JobController`, with the `:id` of their route. -/
inductive Endpoint
  | createJob
  | listDeadJobs
  | requeueJob (id : Segment)
  | getJobLogs (id : Segment)
  | getJobById (id : Segment)
  | listJobs

/-- A literal segment of a route, in any letter case. -/
def named (segment : Segment) (name : String) : Bool :=
  segment.1.toList.map Char.toLower = name.toList

/-- `jobRoutes`, in their order. -/
def route : Method → List Segment → Option Endpoint
  | .post, [] => some .createJob
  | .post, [id, action] => if named action "requeue" then some (.requeueJob id) else none
  | .get, path | .head, path =>
    match path with
    | [] => some .listJobs
    | [id] => if named id "dead" then some .listDeadJobs else some (.getJobById id)
    | [id, part] => if named part "logs" then some (.getJobLogs id) else none
    | _ => none
  | _, _ => none

/-! ## The controller -/

/-- The length of a string in UTF-16 code units. -/
def lengthOf (s : Segment) : ℕ :=
  (s.1.toList.map fun c => if c.toNat < 65536 then 1 else 2).sum

/-- What a request is up to once its client is known. -/
inductive Next
  | reply (r : Reply)
  /-- Its input is what `createJobSchema` has returned. -/
  | createJob (clientId : Text) (input : Json)
  | requeueJob (id : Segment)
  /-- It goes on to query the tables. -/
  | read (e : Endpoint)

/-- A handler for one job. -/
def withId (id : Segment) (next : Next) : Next :=
  if lengthOf id ≠ 36 then .reply (failed 400 "Invalid job ID format") else next

/-- The handlers of `JobController`, up to their first query. -/
def controller (p : Platform) (clientId : Text) (body : Option {b : Json // b.Distinct}) :
    Endpoint → Next
  | .createJob =>
    match createJobSchema p.zod (body.map (·.1)) with
    | .error issues =>
      .reply (.error 400 (some false) "Validation failed" (issues.map fieldOf))
    | .ok input => .createJob clientId input
  | .requeueJob id => withId id (.requeueJob id)
  | .getJobLogs id => withId id (.read (.getJobLogs id))
  | .getJobById id => withId id (.read (.getJobById id))
  | .listDeadJobs => .read .listDeadJobs
  | .listJobs => .read .listJobs

/-- What becomes of a request when the query of `apiKeyAuth` has returned. -/
def serve (p : Platform) (clients : List ApiClient) (ok : Bool) (req : Request) : Next :=
  match apiKeyAuth p clients ok req.apiKey with
  | .error r => .reply r
  | .ok clientId =>
    match route req.method req.path with
    | none => .reply (.error 404 none "Route not found" [])
    | some e => controller p clientId req.body e

/-- What the controller makes of the answers of `JobService.createJob` and `requeueJob`. -/
def replyOf : Response → Reply
  | .accepted r => .data 202 (.job r) (some "Job accepted and queued for processing")
  | .requeued r => .data 200 (.job r) (some "Job requeued successfully")
  | .invalid => .error 400 none "Idempotency-Key must be 1..128 nonblank characters" []
  | .conflict => .error 409 none "Idempotency key already used with a different request" []
  | .notFound => failed 404 "Job not found"
  | .notRequeueable => failed 400 "Only DEAD or FAILED jobs can be requeued"
  | .internal => failed 500 "Internal server error"

/-- How far a request has come. -/
inductive Stage
  | arrived
  /-- The query of `apiKeyAuth` has returned. -/
  | admitted (next : Next)
  /-- `JobService.createJob` or `requeueJob` was called. -/
  | called
  /-- The rows of a listing were read, and are counted. -/
  | counting (d : Data)
  | replied (r : Reply)

/-- What a query for an endpoint may find in the tables, or that it fails. -/
inductive Finds (p : Platform) (t : Tables) (q : ListQuery) : Endpoint → Stage → Prop
  | job {id r} (h : t.job? (p.idOf id) = some r) :
      Finds p t q (.getJobById id) (.replied (.data 200 (.job r) none))
  | noJob {id} (h : t.job? (p.idOf id) = none) :
      Finds p t q (.getJobById id) (.replied (failed 404 "Job not found"))
  | logs {id rows} (h : ListsJobLogs t (p.idOf id) rows) (hne : rows ≠ []) :
      Finds p t q (.getJobLogs id) (.replied (.data 200 (.logs rows) none))
  | noLogs {id} (h : ListsJobLogs t (p.idOf id) []) :
      Finds p t q (.getJobLogs id) (.replied (failed 404 "No logs found for this job"))
  | jobs {l} (h : ListsJobs p.sameType t q l) : Finds p t q .listJobs (.counting (.jobs l))
  | deadJobs {l} (h : ListsDeadJobs t q.limit q.offset l) :
      Finds p t q .listDeadJobs (.counting (.deadJobs l))
  | error {e} : Finds p t q e (.replied (failed 500 "Internal server error"))

/-- A listing, with what its second query has counted. -/
def counted (p : Platform) (t : Tables) (q : ListQuery) : Data → Data
  | .jobs l => .jobs { l with total := (t.jobs.filter (q.matches p.sameType)).length }
  | .deadJobs l => .deadJobs { l with total := (t.jobs.filter (·.status = .dead)).length }
  | d => d

/-! ## The API in the system -/

/-- The system, with the clients and the requests that have come in. -/
structure Api where
  core : State
  clients : List ApiClient
  requests : ℕ → Option (Request × Stage)

namespace Api

/-- A request comes to a stage. -/
def setRequest (x : Api) (c : ℕ) (req : Request) (st : Stage) : Api :=
  { x with requests := Function.update x.requests c (some (req, st)) }

/-- The call of `JobService` that a request makes. -/
inductive Calls (p : Platform) (c : ℕ) (req : Request) : Next → Action → Prop
  | createJob {clientId id} {input : CreateJobInput} :
      Calls p c req (.createJob clientId input.toJson)
        (.createJob c clientId req.idempotencyKey input id)
  | requeueJob {id} : Calls p c req (.requeueJob id) (.requeueJob c (p.idOf id))

/-- A step of the API, or of the rest of the system. -/
inductive Step (cfg : Config) (p : Platform) (x : Api) : List Event → Api → Prop
  | administer (clients : List ApiClient) : Step cfg p x [] { x with clients := clients }
  | core {a s es} (ha : a.call? = none) (hs : x.core.step cfg a = some (s, es)) :
      Step cfg p x es { x with core := s }
  | arrive {c} (req : Request) (hc : x.requests c = none) :
      Step cfg p x [] (x.setRequest c req .arrived)
  | authenticate {c req} (ok : Bool) (hc : x.requests c = some (req, .arrived)) :
      Step cfg p x [] (x.setRequest c req (.admitted (serve p x.clients ok req)))
  | reply {c req r} (hc : x.requests c = some (req, .admitted (.reply r))) :
      Step cfg p x [] (x.setRequest c req (.replied r))
  | call {c req n a s es} (hc : x.requests c = some (req, .admitted n)) (ha : Calls p c req n a)
      (hs : x.core.step cfg a = some (s, es)) :
      Step cfg p x es ({ x with core := s }.setRequest c req .called)
  | returned {c req r} (hc : x.requests c = some (req, .called))
      (hr : x.core.calls c = some (.answered r)) :
      Step cfg p x [] (x.setRequest c req (.replied (replyOf r)))
  | find {c req e st} (hc : x.requests c = some (req, .admitted (.read e)))
      (hf : Finds p x.core.mysql.store req.query e st) :
      Step cfg p x [] (x.setRequest c req st)
  | count {c req d} (hc : x.requests c = some (req, .counting d)) :
      Step cfg p x []
        (x.setRequest c req (.replied (.data 200 (counted p x.core.mysql.store req.query d) none)))
  | countFailed {c req d} (hc : x.requests c = some (req, .counting d)) :
      Step cfg p x []
        (x.setRequest c req (.replied (failed 500 "Internal server error")))

end Api

/-- The API and the rest of the system, before the first request. -/
def machine (cfg : Config) (p : Platform) :
    Machine Api Event where
  Start x := Initial x.core ∧ x.requests = fun _ => none
  Step := Api.Step cfg p

/-! ## What a request has been through -/

section Requests

variable {p : Platform} {clients : List ApiClient} {ok : Bool} {req : Request}

/-- A request that passes is that of an active client. -/
theorem apiKeyAuth_ok {apiKey : Option Text} {clientId : Text}
    (h : apiKeyAuth p clients ok apiKey = .ok clientId) :
    ∃ key client, apiKey = some key ∧ client ∈ clients ∧ p.sameKey client.apiKey key = true ∧
      client.isActive = true ∧ client.id = clientId := by
  unfold apiKeyAuth at h
  split at h
  · cases h
  · cases h
  · rename_i key _
    split at h
    · cases h
    · split at h
      · cases h
      · rename_i client hfind
        split at h
        · cases h
        · rename_i hactive
          refine ⟨key, client, rfl, List.mem_of_find?_eq_some hfind, ?_, by simpa using hactive, ?_⟩
          · simpa using List.find?_some hfind
          · exact Except.ok.inj h

/-- The client asks for the transaction. -/
inductive Orders (cfg : Config) (p : Platform) (client : ApiClient) (req : Request) : Op → Prop
  | createJob {key b ms input id k} (hkey : req.apiKey = some key)
      (hsame : p.sameKey client.apiKey key = true)
      (hroute : route req.method req.path = some .createJob) (hbody : req.body = some b)
      (hobj : b.1 = .obj ms) (hasks : AsksFor ms input)
      (hk : requestKeyOf client.id req.idempotencyKey = some k) :
      Orders cfg p client req (.createJob (newJob cfg input id k))
  | requeueJob {key id} (hkey : req.apiKey = some key) (hsame : p.sameKey client.apiKey key = true)
      (hroute : route req.method req.path = some (.requeueJob id)) (hid : lengthOf id = 36) :
      Orders cfg p client req (.requeueJob (p.idOf id))

theorem controller_createJob {clientId clientId' : Text} {body : Option {b : Json // b.Distinct}}
    {e : Endpoint} {v : Json} (h : controller p clientId body e = .createJob clientId' v) :
    e = .createJob ∧ clientId' = clientId ∧
      createJobSchema p.zod (body.map (·.1)) = .ok v := by
  cases e with
  | createJob =>
    simp only [controller] at h
    split at h
    · cases h
    · rename_i v' hv
      obtain ⟨rfl, rfl⟩ := Next.createJob.inj h
      exact ⟨rfl, rfl, hv⟩
  | listDeadJobs | listJobs => cases h
  | _ =>
    simp only [controller, withId] at h
    split at h <;> cases h

theorem controller_requeueJob {clientId : Text} {body : Option {b : Json // b.Distinct}}
    {e : Endpoint} {id : Segment} (h : controller p clientId body e = .requeueJob id) :
    e = .requeueJob id ∧ lengthOf id = 36 := by
  cases e with
  | createJob =>
    simp only [controller] at h
    split at h <;> cases h
  | listDeadJobs | listJobs => cases h
  | requeueJob id' =>
    simp only [controller, withId] at h
    split at h
    · cases h
    · rename_i hid
      obtain rfl := Next.requeueJob.inj h
      exact ⟨rfl, not_not.1 hid⟩
  | _ =>
    simp only [controller, withId] at h
    split at h <;> cases h

/-- A request that is served as something else than a refusal has passed and found its way. -/
theorem serve_cases (p : Platform) (clients : List ApiClient) (ok : Bool)
    (req : Request) : (∃ r, serve p clients ok req = .reply r) ∨
      ∃ clientId e, apiKeyAuth p clients ok req.apiKey = .ok clientId ∧
        route req.method req.path = some e ∧
        serve p clients ok req = controller p clientId req.body e := by
  rw [serve]
  split
  · exact .inl ⟨_, rfl⟩
  · rename_i clientId hauth
    split
    · exact .inl ⟨_, rfl⟩
    · rename_i e hroute
      exact .inr ⟨clientId, e, hauth, hroute, rfl⟩

theorem serve_createJob {clientId : Text} {v : Json}
    (h : serve p clients ok req = .createJob clientId v) :
    apiKeyAuth p clients ok req.apiKey = .ok clientId ∧
      route req.method req.path = some .createJob ∧
      createJobSchema p.zod (req.body.map (·.1)) = .ok v := by
  obtain ⟨r, hr⟩ | ⟨clientId', e, hauth, hroute, hserve⟩ := serve_cases p clients ok req
  · cases h.symm.trans hr
  · obtain ⟨rfl, rfl, hbody⟩ := controller_createJob (hserve.symm.trans h)
    exact ⟨hauth, hroute, hbody⟩

theorem serve_requeueJob {id : Segment} (h : serve p clients ok req = .requeueJob id) :
    (∃ clientId, apiKeyAuth p clients ok req.apiKey = .ok clientId) ∧
      route req.method req.path = some (.requeueJob id) ∧ lengthOf id = 36 := by
  obtain ⟨r, hr⟩ | ⟨clientId, e, hauth, hroute, hserve⟩ := serve_cases p clients ok req
  · cases h.symm.trans hr
  · obtain ⟨rfl, hid⟩ := controller_requeueJob (hserve.symm.trans h)
    exact ⟨⟨clientId, hauth⟩, hroute, hid⟩

/-- A body that is accepted as an input asks for it. -/
theorem body_asks {input : CreateJobInput}
    (h : createJobSchema p.zod (req.body.map (·.1)) = .ok input.toJson) :
    ∃ b ms, req.body = some b ∧ b.1 = .obj ms ∧ AsksFor ms input := by
  cases hbody : req.body with
  | none =>
    rw [hbody] at h
    obtain ⟨ms, vs, hms, -⟩ := Zod.object_ok.1 h
    cases hms
  | some b =>
    rw [hbody] at h
    obtain ⟨ms, input', hobj, hinput, hasks⟩ := createJobSchema_infers b.2 h
    obtain rfl := CreateJobInput.toJson_inj hinput
    exact ⟨b, ms, rfl, hobj, hasks⟩

/-- The call that a request makes is what an active client asks for. -/
theorem orders_of_serve {cfg : Config} {c : ℕ} {n : Next} {a : Action} {op : Op}
    (h : serve p clients ok req = n) (ha : Api.Calls p c req n a) {c' : ℕ}
    (hask : Asked cfg c' a op) :
    c' = c ∧ ∃ client ∈ clients, client.isActive = true ∧ Orders cfg p client req op := by
  cases ha with
  | createJob =>
    obtain ⟨hauth, hroute, hinput⟩ := serve_createJob h
    obtain ⟨b, ms, hbody, hobj, hasks⟩ := body_asks hinput
    obtain ⟨key, client, hkey, hmem, hsame, hactive, rfl⟩ := apiKeyAuth_ok hauth
    cases hask with
    | createJob hk =>
      exact ⟨rfl, client, hmem, hactive, .createJob hkey hsame hroute hbody hobj hasks hk⟩
  | requeueJob =>
    obtain ⟨⟨clientId, hauth⟩, hroute, hid⟩ := serve_requeueJob h
    obtain ⟨key, client, hkey, hmem, hsame, hactive, -⟩ := apiKeyAuth_ok hauth
    cases hask with
    | requeueJob => exact ⟨rfl, client, hmem, hactive, .requeueJob hkey hsame hroute hid⟩

end Requests

/-! ## Runs -/

section Runs

variable {cfg : Config} {p : Platform}
  {x₀ x x' : Api} {es es' : List Event} {c : ℕ} {req : Request} {st : Stage}

/-- What the system does in a step of the API. -/
theorem Api.Step.run (h : Api.Step cfg p x es x') :
    ScaleQueue.Run cfg x.core es x'.core := by
  cases h with
  | core _ hs => exact .step .refl hs
  | call _ _ hs => exact .step .refl hs
  | _ => exact .refl

theorem core_run (h : (machine cfg p).Run x es x') :
    ScaleQueue.Run cfg x.core es x'.core := by
  induction h with
  | refl => exact .refl
  | step _ hs ih => exact ih.trans (Api.Step.run hs)

/-- `apiKeyAuth` looks the key of the request up, and it is up to this next. -/
def Admits (p : Platform) (c : ℕ) (req : Request) (n : Next) (u : Api) : Prop :=
  u.requests c = some (req, .arrived) ∧ ∃ ok, serve p u.clients ok req = n

/-- The request has called `JobService`, and the system has gone on from there. -/
structure Called (cfg : Config) (p : Platform) (c : ℕ) (req : Request) (n : Next) (x : Api)
    (es : List Event) (u : Api) : Prop where
  intro ::
  call : ∃ a s e e', Api.Calls p c req n a ∧ u.core.step cfg a = some (s, e) ∧ es = e ++ e' ∧
    ScaleQueue.Run cfg s e' x.core

variable (cfg p) in
/-- Where a request is in a run, and how it came there. -/
inductive Placed (x₀ : Api) (c : ℕ) (req : Request) (es : List Event) (x : Api) : Stage → Prop
  | arrived (hno : x.core.calls c = none) : Placed x₀ c req es x .arrived
  | admitted {n} (hno : x.core.calls c = none)
      (h : (machine cfg p).Passed x₀ es x fun _ u => Admits p c req n u) :
      Placed x₀ c req es x (.admitted n)
  | refused {r} (hno : x.core.calls c = none)
      (h : (machine cfg p).Passed x₀ es x fun _ u => Admits p c req (.reply r) u) :
      Placed x₀ c req es x (.replied r)
  | called {n} (h : (machine cfg p).Passed x₀ es x fun es' u => Admits p c req n u ∧
      (machine cfg p).Passed u es' x (Called cfg p c req n x)) :
      Placed x₀ c req es x .called
  | returned {n r} (h : (machine cfg p).Passed x₀ es x fun es' u =>
      Admits p c req n u ∧ (machine cfg p).Passed u es' x (Called cfg p c req n x))
      (hr : x.core.calls c = some (.answered r)) : Placed x₀ c req es x (.replied (replyOf r))
  | found {e r} (hno : x.core.calls c = none)
      (h : (machine cfg p).Passed x₀ es x fun es' u => Admits p c req (.read e) u ∧
        (machine cfg p).Passed u es' x fun _ v =>
          Finds p v.core.mysql.store req.query e (.replied r)) :
      Placed x₀ c req es x (.replied r)
  | counting {e d} (hno : x.core.calls c = none)
      (h : (machine cfg p).Passed x₀ es x fun es' u => Admits p c req (.read e) u ∧
        (machine cfg p).Passed u es' x fun _ v =>
          Finds p v.core.mysql.store req.query e (.counting d)) :
      Placed x₀ c req es x (.counting d)
  | counted {e d r} (hno : x.core.calls c = none)
      (h : (machine cfg p).Passed x₀ es x fun es' u => Admits p c req (.read e) u ∧
        (machine cfg p).Passed u es' x fun es'' v =>
          Finds p v.core.mysql.store req.query e (.counting d) ∧
          (machine cfg p).Passed v es'' x fun _ w =>
            r = .data 200 (counted p w.core.mysql.store req.query d) none ∨
              r = failed 500 "Internal server error") :
      Placed x₀ c req es x (.replied r)

/-- A request stays where it is while others go on. -/
theorem Placed.later (h : Placed cfg p x₀ c req es x st)
    (hs : Api.Step cfg p x es' x')
    (hcall : x.core.calls c = none → x'.core.calls c = none) :
    Placed cfg p x₀ c req (es ++ es') x' st := by
  have calls {n : Next} {es : List Event} {u : Api} (h : Called cfg p c req n x es u) :
      Called cfg p c req n x' (es ++ es') u := by
    obtain ⟨a, s, e, e', ha, hstep, rfl, hgo⟩ := h
    exact ⟨a, s, e, e' ++ es', ha, hstep, List.append_assoc _ _ _, hgo.trans hs.run⟩
  cases h with
  | arrived hno => exact .arrived (hcall hno)
  | admitted hno h => exact .admitted (hcall hno) (h.later hs fun _ _ _ hu => hu)
  | refused hno h => exact .refused (hcall hno) (h.later hs fun _ _ _ hu => hu)
  | called h =>
    refine .called (h.later hs fun _ _ _ ⟨hadmits, hu⟩ => ⟨hadmits, ?_⟩)
    exact hu.later hs fun _ _ _ => calls
  | returned h hr =>
    refine .returned (h.later hs fun _ _ _ ⟨hadmits, hu⟩ => ⟨hadmits, ?_⟩) ?_
    · exact hu.later hs fun _ _ _ => calls
    · cases hs with
      | core _ hstep => exact (step_cases hstep).answered hr
      | call _ _ hstep => exact (step_cases hstep).answered hr
      | _ => exact hr
  | found hno h =>
    refine .found (hcall hno) (h.later hs fun _ _ _ ⟨hadmits, hu⟩ => ⟨hadmits, ?_⟩)
    exact hu.later hs fun _ _ _ hv => hv
  | counting hno h =>
    refine .counting (hcall hno) (h.later hs fun _ _ _ ⟨hadmits, hu⟩ => ⟨hadmits, ?_⟩)
    exact hu.later hs fun _ _ _ hv => hv
  | @counted e d r hno h =>
    refine .counted (d := d) (hcall hno) (h.later hs fun _ _ _ ⟨hadmits, hu⟩ => ⟨hadmits, ?_⟩)
    refine hu.later hs fun _ _ _ ⟨hv, hw⟩ => ⟨hv, ?_⟩
    exact hw.later hs fun _ _ _ hw => hw

variable (cfg p) in
/-- Every request is somewhere, and no call is without one. -/
structure Served (x₀ : Api) (es : List Event) (x : Api) : Prop where
  uncalled : ∀ c, x.requests c = none → x.core.calls c = none
  placed : ∀ c req st, x.requests c = some (req, st) → Placed cfg p x₀ c req es x st

/-- One request goes on, and the others stay where they are. -/
theorem Served.goOn (h : Served cfg p x₀ es x) (hs : Api.Step cfg p x es' x')
    (hreq : x'.requests = Function.update x.requests c (some (req, st)))
    (hcalls : ∀ c' ≠ c, x.core.calls c' = none → x'.core.calls c' = none)
    (hp : Placed cfg p x₀ c req (es ++ es') x' st) :
    Served cfg p x₀ (es ++ es') x' where
  uncalled c' hc' := by
    rw [hreq] at hc'
    rcases eq_or_ne c' c with rfl | hne
    · simp at hc'
    · rw [Function.update_of_ne hne] at hc'
      exact hcalls c' hne (h.uncalled c' hc')
  placed c' req' st' hc' := by
    rw [hreq] at hc'
    rcases eq_or_ne c' c with rfl | hne
    · rw [Function.update_self] at hc'
      obtain ⟨rfl, rfl⟩ := Prod.mk.inj (Option.some.inj hc')
      exact hp
    · rw [Function.update_of_ne hne] at hc'
      exact (h.placed c' req' st' hc').later hs (hcalls c' hne)

/-- The call that a request makes has its number. -/
theorem Api.Calls.call_eq {n : Next} {a : Action} (h : Api.Calls p c req n a) :
    a.call? = some c := by
  cases h <;> rfl

theorem Served.step (h : Served cfg p x₀ es x) (hrun : (machine cfg p).Run x₀ es x)
    (hs : Api.Step cfg p x es' x') : Served cfg p x₀ (es ++ es') x' := by
  cases hs with
  | administer clients =>
    exact ⟨h.uncalled,
      fun c req st hc => (h.placed c req st hc).later (.administer clients) fun h => h⟩
  | core ha hstep =>
    have hcalls (c : ℕ) (hc : x.core.calls c = none) :=
      (step_cases hstep).uncalled hc (by simp [ha])
    exact ⟨fun c hc => hcalls c (h.uncalled c hc),
      fun c req st hc => (h.placed c req st hc).later (.core ha hstep) (hcalls c)⟩
  | arrive req hc =>
    exact h.goOn (.arrive req hc) rfl (fun _ _ hc => hc) (.arrived (h.uncalled _ hc))
  | @authenticate c req ok hc =>
    refine h.goOn (.authenticate ok hc) rfl (fun _ _ hc => hc) ?_
    cases h.placed _ _ _ hc with
    | arrived hno =>
      have hnow := Machine.Passed.now (P := fun _ u => Admits p c req _ u) hrun ⟨hc, ok, rfl⟩
      exact .admitted hno (hnow.later (.authenticate ok hc) fun _ _ _ hu => hu)
  | reply hc =>
    refine h.goOn (.reply hc) rfl (fun _ _ hc => hc) ?_
    cases (h.placed _ _ _ hc).later (.reply hc) fun h => h with
    | admitted hno hadmits => exact .refused hno hadmits
  | @call c req n a s es' hc ha hstep =>
    refine h.goOn (.call hc ha hstep) rfl (fun c' hne hc' => ?_) ?_
    · refine (step_cases hstep).uncalled hc' fun heq => hne ?_
      exact (Option.some.inj (ha.call_eq.symm.trans heq)).symm
    · cases h.placed _ _ _ hc with
      | admitted hno hadmits =>
        exact .called (hadmits.next (.call hc ha hstep)
          ⟨a, s, es', [], ha, hstep, (List.append_nil _).symm, .refl⟩)
  | returned hc hr =>
    refine h.goOn (.returned hc hr) rfl (fun _ _ hc => hc) ?_
    cases (h.placed _ _ _ hc).later (.returned hc hr) fun h => h with
    | called hcall => exact .returned hcall hr
  | find hc hf =>
    refine h.goOn (.find hc hf) rfl (fun _ _ hc => hc) ?_
    cases h.placed _ _ _ hc with
    | admitted hno hadmits =>
      have hnext := hadmits.next (Q := fun _ v => Finds p v.core.mysql.store _ _ _)
        (.find hc hf) hf
      cases hf <;> first | exact .found hno hnext | exact .counting hno hnext
  | @count c req d hc =>
    refine h.goOn (.count hc) rfl (fun _ _ hc => hc) ?_
    cases h.placed _ _ _ hc with
    | counting hno hcount =>
      refine .counted (d := d) hno
        (hcount.later (.count hc) fun _ _ _ ⟨hadmits, hu⟩ => ⟨hadmits, ?_⟩)
      exact hu.next (.count hc) (.inl rfl)
  | @countFailed c req d hc =>
    refine h.goOn (.countFailed hc) rfl (fun _ _ hc => hc) ?_
    cases h.placed _ _ _ hc with
    | counting hno hcount =>
      refine .counted (d := d) hno
        (hcount.later (.countFailed hc) fun _ _ _ ⟨hadmits, hu⟩ => ⟨hadmits, ?_⟩)
      exact hu.next (.countFailed hc) (.inr rfl)

theorem served_run (h₀ : (machine cfg p).Start x₀)
    (h : (machine cfg p).Run x₀ es x) : Served cfg p x₀ es x := by
  induction h with
  | refl => exact ⟨fun c _ => by simp [h₀.1.calls], fun c req st hc => by simp [h₀.2] at hc⟩
  | step hrun hs ih => exact ih.step hrun hs

/-! ## What a reply tells -/

variable (cfg p) in
/-- What happened when a request was replied to so, and what it has committed. -/
inductive Explained (x₀ : Api) (c : ℕ) (req : Request) (es : List Event) (x : Api) : Reply → Prop
  /-- It was turned down. -/
  | refused {r} (hno : commits c es = [])
      (h : (machine cfg p).Passed x₀ es x fun _ u => Admits p c req (.reply r) u) :
      Explained x₀ c req es x r
  | invalid {clientId input} (hno : commits c es = [])
      (h : (machine cfg p).Passed x₀ es x fun _ u =>
        Admits p c req (.createJob clientId input) u)
      (hkey : requestKeyOf clientId req.idempotencyKey = none) :
      Explained x₀ c req es x (replyOf .invalid)
  /-- It called `JobService`, and the answer is true. -/
  | answered {n op r}
      (h : (machine cfg p).Passed x₀ es x fun es' u => Admits p c req n u ∧
        (machine cfg p).Passed u es' x fun es'' v => ∃ a s e e', Api.Calls p c req n a ∧
          Asked cfg c a op ∧ v.core.step cfg a = some (s, e) ∧ es'' = e ++ e' ∧
          commits c es = commits c e' ∧ Truthful cfg s c e' x.core op r) :
      Explained x₀ c req es x (replyOf r)
  /-- It found the reply in the tables. -/
  | found {e r} (hno : commits c es = [])
      (h : (machine cfg p).Passed x₀ es x fun es' u => Admits p c req (.read e) u ∧
        (machine cfg p).Passed u es' x fun _ v =>
          Finds p v.core.mysql.store req.query e (.replied r)) :
      Explained x₀ c req es x r
  /-- It found a page, and counted later. -/
  | counted {e d r} (hno : commits c es = [])
      (h : (machine cfg p).Passed x₀ es x fun es' u => Admits p c req (.read e) u ∧
        (machine cfg p).Passed u es' x fun es'' v =>
          Finds p v.core.mysql.store req.query e (.counting d) ∧
          (machine cfg p).Passed v es'' x fun _ w =>
            r = .data 200 (counted p w.core.mysql.store req.query d) none ∨
              r = failed 500 "Internal server error") :
      Explained x₀ c req es x r

/-- What `JobService` has answered to a request was true, or the request had a bad key. -/
theorem Called.explained {n : Next} {r : Response} (h₀ : (machine cfg p).Start x₀)
    (h : (machine cfg p).Passed x₀ es x fun es' u => Admits p c req n u ∧
      (machine cfg p).Passed u es' x (Called cfg p c req n x))
    (hr : x.core.calls c = some (.answered r)) :
    Explained cfg p x₀ c req es x (replyOf r) := by
  obtain ⟨es₁, es₂, u, rfl, h₁, h₂, hadmits, es₃, es₄, v, rfl, h₃, h₄, hcalled⟩ := h
  obtain ⟨a, s, e, e', ha, hs, rfl, hgo⟩ := hcalled
  have hpre := core_run (h₁.trans h₃)
  have hcall : v.core.calls c = none ∧ commits c e = [] := (step_cases hs).comes_in ha.call_eq
  have hcommits : commits c (es₁ ++ (es₃ ++ (e ++ e'))) = commits c e' := by
    rw [← List.append_assoc, commits_append, hpre.uncalled h₀.1 hcall.1, commits_append, hcall.2]
    rfl
  have answered {op : Op} (hask : Asked cfg c a op) :
      Explained cfg p x₀ c req (es₁ ++ (es₃ ++ (e ++ e'))) x (replyOf r) := by
    obtain ⟨y, hy, hstand⟩ := hask.standing h₀.1 hpre hs hgo
    obtain rfl := Option.some.inj (hr.symm.trans hy)
    exact .answered ⟨es₁, es₃ ++ (e ++ e'), u, rfl, h₁, h₂, hadmits, es₃, e ++ e', v, rfl, h₃, h₄,
      a, s, e, e', ha, hask, hs, rfl, hcommits, hstand.truthful⟩
  cases ha with
  | @createJob clientId input id =>
    cases hkey : requestKeyOf clientId req.idempotencyKey with
    | some key => exact answered (.createJob hkey)
    | none =>
      have hbad : s.calls c = some (.answered .invalid) := by
        cases step_cases hs with
        | badKey => exact Function.update_self ..
        | createJob _ hkey' => cases hkey.symm.trans hkey'
      obtain ⟨hsame, hsilent⟩ := hgo.answered_invalid h₀.1 (hpre.step hs) hbad
      obtain rfl := Call.answered.inj (Option.some.inj (hr.symm.trans hsame))
      exact .invalid (hcommits.trans hsilent) ⟨es₁, es₃ ++ (e ++ e'), u, rfl, h₁, h₂, hadmits⟩ hkey
  | requeueJob => exact answered .requeueJob

/-- Whatever happens while a request is served, its reply is explained by what was there at
    that time. A request that is turned down, or only reads, has committed nothing. One that
    fails has committed nothing either, unless its commit was still on its way when the
    connection was lost, or the read after it has failed. -/
theorem replies_explained (h₀ : (machine cfg p).Start x₀)
    (h : (machine cfg p).Run x₀ es x) {r : Reply}
    (hr : x.requests c = some (req, .replied r)) :
    Explained cfg p x₀ c req es x r := by
  have hno (hc : x.core.calls c = none) : commits c es = [] := (core_run h).uncalled h₀.1 hc
  cases (served_run h₀ h).placed c req _ hr with
  | refused hc hpassed => exact .refused (hno hc) hpassed
  | returned hpassed hret => exact Called.explained h₀ hpassed hret
  | found hc hpassed => exact .found (hno hc) hpassed
  | counted hc hpassed => exact .counted (hno hc) hpassed

/-! ## Who changes the tables -/

variable (cfg p) in
/-- The transaction in the session is what an active client has asked for. -/
def Authorized (x₀ : Api) (es : List Event) (x : Api) (sid : Sid) (op : Op)
    (P : List Event → Prop) : Prop :=
  ∃ c req, sid.party = .call c ∧ (machine cfg p).Passed x₀ es x fun es' u => P es' ∧
    u.requests c = some (req, .arrived) ∧
    ∃ client ∈ u.clients, client.isActive = true ∧ Orders cfg p client req op

/-- The sessions for transactions that create or requeue a job are authorized. -/
theorem sessions_authorized (h₀ : (machine cfg p).Start x₀)
    (h : (machine cfg p).Run x₀ es x) {sid : Sid} {y : Conn}
    (hy : x.core.mysql.sessions sid = some y)
    (hop : (∃ j, y.op = .createJob j) ∨ ∃ id, y.op = .requeueJob id) :
    Authorized cfg p x₀ es x sid y.op fun _ => True := by
  induction h generalizing y with
  | refl => simp [h₀.1.sessions] at hy
  | @step es es' x x' hrun hs ih =>
    have later {y' : Conn} (hy' : x.core.mysql.sessions sid = some y') (hop' : y'.op = y.op) :
        Authorized cfg p x₀ (es ++ es') x' sid y.op fun _ => True := by
      obtain ⟨c, req, hparty, hpassed⟩ := ih hy' (hop' ▸ hop)
      exact ⟨c, req, hparty, hop' ▸ hpassed.later hs fun _ _ _ hu => hu⟩
    have hpaired := (core_run hrun).paired h₀.1
    cases hs with
    | core ha hstep =>
      obtain ⟨y', hy', hop'⟩ | ⟨c, -, hask⟩ := (step_cases hstep).asks hpaired hy hop
      · exact later hy' hop'
      · generalize y.op = op at hask
        cases hask <;> cases ha
    | @call c req n a s es' hc ha hstep =>
      obtain ⟨y', hy', hop'⟩ | ⟨c', hparty, hask⟩ := (step_cases hstep).asks hpaired hy hop
      · exact later hy' hop'
      -- It was let pass as the request of a client, and makes its call in this step.
      cases (served_run h₀ hrun).placed _ _ _ hc with
      | admitted hno hadmits =>
        obtain ⟨es₁, es₂, u, rfl, h₁, h₂, harrived, ok, hserve⟩ := hadmits
        obtain ⟨rfl, hclient⟩ := orders_of_serve hserve ha hask
        exact ⟨_, _, hparty, es₁, es₂ ++ es', u, List.append_assoc _ _ _, h₁,
          h₂.step (.call hc ha hstep), trivial, harrived, hclient⟩
    | _ => exact later hy rfl

/-- A job is only created or requeued for a request that has come in with the key of a
    client that was active when the request was let pass, and just as it asks for. -/
theorem mutations_authorized (h₀ : (machine cfg p).Start x₀)
    (h : (machine cfg p).Run x₀ es x) {sid : Sid} {op : Op} {a : Answer}
    (hmem : .closed sid (.committed op a) ∈ es)
    (hop : (∃ j, op = .createJob j) ∨ ∃ id, op = .requeueJob id) :
    Authorized cfg p x₀ es x sid op fun es' => .closed sid (.committed op a) ∈ es' := by
  induction h with
  | refl => cases hmem
  | @step es es' x x' hrun hs ih =>
    obtain hmem | hmem := List.mem_append.1 hmem
    · obtain ⟨c, req, hparty, hpassed⟩ := ih hmem
      refine ⟨c, req, hparty, hpassed.later hs fun _ _ _ ⟨hin, hu⟩ => ⟨?_, hu⟩⟩
      exact List.mem_append_left _ hin
    -- The session was there before the step that closes it.
    · obtain ⟨y, hy, rfl⟩ : ∃ y, x.core.mysql.sessions sid = some y ∧ y.op = op := by
        cases hs with
        | core _ hstep => exact (step_cases hstep).committed_session hmem
        | call _ _ hstep => exact (step_cases hstep).committed_session hmem
        | _ => cases hmem
      obtain ⟨c, req, hparty, hpassed⟩ := sessions_authorized h₀ hrun hy hop
      refine ⟨c, req, hparty, hpassed.later hs fun _ _ _ ⟨_, hu⟩ => ⟨?_, hu⟩⟩
      exact List.mem_append_right _ hmem

/-! ## A first request -/

theorem play_run (x : Api) (acts : List Action) (h : ∀ a ∈ acts, a.call? = none) :
    (machine cfg p).Run x (x.core.play cfg acts).2
      { x with core := (x.core.play cfg acts).1 } := by
  induction acts generalizing x with
  | nil => exact .refl
  | cons a acts ih =>
    have htail (a : Action) (ha : a ∈ acts) := h a (.tail _ ha)
    rw [State.play]
    split
    · exact ih x htail
    · rename_i s es hs
      have hstep : Api.Step cfg p x es { x with core := s } := .core (h a (.head _)) hs
      exact (Machine.Run.one hstep).trans (ih _ htail)

end Runs

/-- One client, and no request yet. -/
def firstApi : Api where
  core := .fresh
  clients := [{ id := ascii ['1'], name := "shop", apiKey := ascii ['k'], isActive := true }]
  requests := fun _ => none

/-- It asks for a first job. -/
def firstRequest : Request where
  method := .post
  path := []
  apiKey := some (ascii ['k'])
  idempotencyKey := none
  query := { status := none, type := none, limit := none, offset := none }
  body := some ⟨firstInput.toJson, firstInput.toJson_distinct⟩

/-- `JobService` has answered the first request. -/
def firstServed : Api :=
  { firstApi with core := firstAnswered.1 }.setRequest 0 firstRequest .called

theorem firstServed_run : (machine (.defaults id) .plain).Run firstApi
    (.called 0 (newJob (.defaults id) firstInput firstJob none) :: firstAnswered.2)
    firstServed := by
  have hserve : serve .plain firstApi.clients true firstRequest =
      .createJob (ascii ['1']) firstInput.toJson := rfl
  let arrived := firstApi.setRequest 0 firstRequest .arrived
  have harrive : (machine (.defaults id) .plain).Run firstApi [] arrived :=
    .one (.arrive firstRequest rfl)
  let admitted :=
    arrived.setRequest 0 firstRequest (.admitted (.createJob (ascii ['1']) firstInput.toJson))
  have hpass : (machine (.defaults id) .plain).Run arrived [] admitted := by
    have hstep : Api.Step (.defaults id) .plain arrived []
        (arrived.setRequest 0 firstRequest
          (.admitted (serve .plain firstApi.clients true firstRequest))) := .authenticate true rfl
    rw [hserve] at hstep
    exact .one hstep
  let called := { admitted with core := firstAsked }.setRequest 0 firstRequest .called
  have hcall : (machine (.defaults id) .plain).Run admitted
      [.called 0 (newJob (.defaults id) firstInput firstJob none)] called :=
    .one (.call (a := .createJob 0 (ascii ['1']) none firstInput firstJob) rfl .createJob rfl)
  have hrest : (machine (.defaults id) .plain).Run called firstAnswered.2
      { called with core := firstAnswered.1 } := play_run called _ (by simp [Action.call?])
  have hsame : { called with core := firstAnswered.1 } = firstServed := by
    simp [firstServed, called, admitted, arrived, Api.setRequest]
  exact hsame ▸ ((harrive.trans hpass).trans hcall).trans hrest

theorem replies_explained_first : ∃ r, r.id = firstJob ∧
    Explained (.defaults id) .plain firstApi 0 firstRequest
      (.called 0 (newJob (.defaults id) firstInput firstJob none) :: firstAnswered.2)
      (firstServed.setRequest 0 firstRequest (.replied (replyOf (.accepted r))))
      (replyOf (.accepted r)) := by
  obtain ⟨r, hr, hid⟩ : ∃ r, firstAnswered.1.calls 0 = some (.answered (.accepted r)) ∧
      r.id = firstJob := ⟨_, rfl, rfl⟩
  have hreturned := firstServed_run.step (.returned (Function.update_self ..) hr)
  rw [List.append_nil] at hreturned
  exact ⟨r, hid, replies_explained ⟨.fresh, rfl⟩ hreturned (by simp [Api.setRequest])⟩

theorem mutations_authorized_first : Authorized (.defaults id) .plain firstApi
    (.called 0 (newJob (.defaults id) firstInput firstJob none) :: firstAnswered.2) firstServed
    ⟨.call 0, 0⟩ (.createJob (newJob (.defaults id) firstInput firstJob none)) fun es =>
      .closed ⟨.call 0, 0⟩
        (.committed (.createJob (newJob (.defaults id) firstInput firstJob none)) .done) ∈ es :=
  mutations_authorized ⟨.fresh, rfl⟩ firstServed_run (.tail _ (.head _)) (.inl ⟨_, rfl⟩)

end Http

end ScaleQueue
