import ScaleQueue.Life

/-!
# The dispatcher drains the outbox

One dispatcher that calls `Dispatch` again and again, with nobody else at work
(`State.dispatches`). A call visits the due row with the least id: it deletes the row
if its generation is over, and otherwise publishes and marks it (`Dispatched`). The
row that is marked is not due for the next 30 seconds, so that within this time no row
is visited twice (`Drained`), and the calls return `true` at most once for each row.
-/

namespace ScaleQueue

open Locking

/-! ## A call of `Dispatch` -/

/-- When the statements of a call of `Dispatch` read the clock. -/
structure Times where
  scan : ℕ
  read : ℕ
  write : ℕ
  scan_le_read : scan ≤ read
  read_le_write : read ≤ write

/-- A call of `Dispatch` by the dispatcher `d`, in session `n` at the time `now`, that
    succeeds in publishing. Of the last actions, those are made that its script calls for. -/
def Times.dispatch (ts : Times) (d n now : ℕ) : List Action :=
  let sid : Sid := ⟨.dispatcher d, n⟩
  [.dispatch d, .advance (ts.scan - now), .exec sid ts.scan, .advance (ts.read - ts.scan),
    .exec sid ts.read, .publish sid true true, .advance (ts.write - ts.read), .exec sid ts.write,
    .close sid .commit, .close sid .abort]

/-- The dispatcher `d` calls `Dispatch` with nobody else at work. -/
def State.dispatchAlone (cfg : Config) (s : State) (d : ℕ) (ts : Times) : State × List Event :=
  s.play cfg (ts.dispatch d s.opened s.mysql.clock)

/-- The first `n` calls of `Dispatch`. -/
def State.dispatches (cfg : Config) (s : State) (d : ℕ) (ts : ℕ → Times) :
    ℕ → State × List Event
  | 0 => (s, [])
  | n + 1 =>
    let (s', es) := s.dispatches cfg d ts n
    let (s'', es') := s'.dispatchAlone cfg d (ts n)
    (s'', es ++ es')

/-- What a call of `Dispatch` returned, if it returned no error. -/
def more? (es : List Event) : Option Bool :=
  es.findSome? fun
    | .closed _ (.committed .dispatch _) => some true
    | .closed _ (.aborted .dispatch .drained) => some false
    | _ => none

/-- The rows that were published, in order. -/
def publications (es : List Event) : List OutboxRow :=
  es.filterMap fun | .published o _ => some o | _ => none

/-- What happens in the call of `Dispatch` after the first `n`. -/
def State.nextDispatch (cfg : Config) (s : State) (d : ℕ) (ts : ℕ → Times) (n : ℕ) : List Event :=
  ((s.dispatches cfg d ts n).1.dispatchAlone cfg d (ts n)).2

/-- The generation at the place is that of its job, and is not over. -/
def Tables.live (t : Tables) (p : Place) : Bool :=
  (t.job? p.jobId).any fun job => job.generation = p.generation ∧ ¬ job.terminal

section Calls

variable {cfg : Config} {s s' : State} {d : ℕ} {sid : Sid} {t : Tables}
  {key : Redis.Key Message WorkerId} {now : ℕ} {x : Tx} {W : List Write}

theorem State.play_some {a : Action} {es : List Event} (h : s.step cfg a = some (s', es))
    (acts : List Action) : s.play cfg (a :: acts) =
      ((s'.play cfg acts).1, es ++ (s'.play cfg acts).2) := by
  rw [State.play, h]

theorem State.play_none {a : Action} (h : s.step cfg a = none) (acts : List Action) :
    s.play cfg (a :: acts) = s.play cfg acts := by
  rw [State.play, h]

/-- Dispatcher `d` waits to call `Dispatch`, and nobody holds a lock. -/
structure Ready (d : ℕ) (t : Tables) (key : Redis.Key Message WorkerId) (now : ℕ) (s : State) :
    Prop where
  store : s.mysql.store = t
  stream : s.stream = key
  clock : s.mysql.clock = now
  locks : ∀ k, s.mysql.locks k = none
  dispatcher : s.dispatchers d = some ⟨none, false, true⟩

/-- Dispatcher `d` calls `Dispatch` in session `sid`, which is at `x` and has written
    `W`, and nobody else holds a lock. -/
structure Calling (d : ℕ) (sid : Sid) (t : Tables) (key : Redis.Key Message WorkerId) (now : ℕ)
    (x : Tx) (W : List Write) (s : State) : Prop where
  store : s.mysql.store = t
  stream : s.stream = key
  clock : s.mysql.clock = now
  locks : ∀ k, s.mysql.locks k = none ∨ s.mysql.locks k = some sid
  party : sid.party = .dispatcher d
  dispatcher : s.dispatchers d = some ⟨some sid, false, true⟩
  session : ∃ began since, s.mysql.sessions sid = some ⟨.dispatch, began, since, true, x, W⟩ ∧
    since ≤ now

theorem Ready.begin (cfg : Config) (h : Ready d t key now s) :
    ∃ s', s.step cfg (.dispatch d) = some (s', []) ∧
      Calling d ⟨.dispatcher d, s.opened⟩ t key now dispatch [] s' := by
  refine ⟨_, by simp only [State.step, h.dispatcher]; rfl, ?_⟩
  exact ⟨h.store, h.stream, h.clock, fun k => .inl (h.locks k), rfl, Function.update_self _ _ _,
    _, _, Function.update_self _ _ _, h.clock.le⟩

theorem Calling.advance (cfg : Config) (h : Calling d sid t key now x W s) {t' : ℕ}
    (ht : now ≤ t') : ∃ s', s.step cfg (.advance (t' - now)) = some (s', []) ∧
      Calling d sid t key t' x W s' := by
  obtain ⟨began, since, hy, hle⟩ := h.session
  refine ⟨_, rfl, h.store, h.stream, ?_, h.locks, h.party, h.dispatcher, began, since, hy,
    hle.trans ht⟩
  rw [Server.advance_clock, h.clock]
  omega

theorem Calling.free (h : Calling d sid t key now x W s) : s.mysql.free sid = fun _ => true := by
  funext k
  exact Server.free_iff.2 (h.locks k)

/-- The session goes on, with a lock or without. -/
theorem Calling.goOn (h : Calling d sid t key now x W s) (began : ℕ) (keys : List Key) (x' : Tx)
    (W' : List Write) : Calling d sid t key now x' W'
      { s with
        mysql := s.mysql.goOn sid keys ⟨.dispatch, began, s.mysql.clock, true, x', W'⟩ } := by
  refine ⟨h.store, h.stream, h.clock, fun k => ?_, h.party, h.dispatcher, _, _,
    Function.update_self _ _ _, h.clock.le⟩
  by_cases hk : k ∈ keys
  · exact .inr (if_pos hk)
  · simpa [Server.goOn, Server.take, hk] using h.locks k

theorem Calling.stmt (cfg : Config) {keys : List Key} {write : Env → Tables → List Write}
    {next : Env → Tables → Tx} (h : Calling d sid t key now (.stmt keys write next) W s) :
    ∃ s' n, s.step cfg (.exec sid now) = some (s', []) ∧
      Calling d sid t key now (next ⟨now, n⟩ (applyAll t W))
        (W ++ write ⟨now, n⟩ (applyAll t W)) s' := by
  obtain ⟨began, since, hy, hle⟩ := h.session
  refine ⟨_, s.mysql.serial, ?_, h.goOn began keys _ _⟩
  simp [State.step, Server.exec, hy, h.free, hle, h.clock, h.store]

theorem Calling.scan (cfg : Config) {pick : Env → Tables → (Key → Bool) → Option Key}
    {next : Env → Tables → Option Key → Tx} (h : Calling d sid t key now (.scan pick next) W s) :
    ∃ s' n, s.step cfg (.exec sid now) = some (s', []) ∧
      Calling d sid t key now (next ⟨now, n⟩ t (pick ⟨now, n⟩ t fun _ => true)) W s' := by
  obtain ⟨began, since, hy, hle⟩ := h.session
  refine ⟨{ s with
      mysql := s.mysql.goOn sid (pick ⟨now, s.mysql.serial⟩ t fun _ => true).toList ⟨.dispatch,
        began, s.mysql.clock, true, next ⟨now, s.mysql.serial⟩ t
          (pick ⟨now, s.mysql.serial⟩ t fun _ => true), W⟩ },
    s.mysql.serial, ?_, h.goOn began _ _ _⟩
  simp only [State.step, Server.exec, hy, h.free, h.store, h.clock, hle, le_refl, and_self, if_true]
  cases pick ⟨now, s.mysql.serial⟩ t fun _ => true <;> rfl

theorem Calling.read (cfg : Config) {next : Env → Tables → Tx}
    (h : Calling d sid t key now (.read next) W s) :
    ∃ s' n, s.step cfg (.exec sid now) = some (s', []) ∧
      Calling d sid t key now (next ⟨now, n⟩ t) W s' := by
  obtain ⟨began, since, hy, hle⟩ := h.session
  refine ⟨_, s.mysql.serial, ?_, h.goOn began [] _ _⟩
  simp [State.step, Server.exec, hy, hle, h.clock, h.store]

theorem Calling.publish (cfg : Config) {o : OutboxRow} {next : Bool → Tx}
    (h : Calling d sid t key now (.call o next) W s) :
    ∃ s', s.step cfg (.publish sid true true) =
        some (s', [.published o ⟨key.nextId, encode o.place⟩]) ∧
      Calling d sid t (key.xadd (encode o.place)) now (next true) W s' := by
  obtain ⟨began, since, hy, hle⟩ := h.session
  let y : Session Tables Key Write OutboxRow Answer Op :=
    ⟨.dispatch, began, s.mysql.clock, true, next true, W⟩
  let db : MySQL := { s.mysql with sessions := Function.update s.mysql.sessions sid (some y) }
  refine ⟨{ s with mysql := db, stream := s.stream.xadd (encode o.place) }, ?_, ?_⟩
  · simp [State.step, Server.waiting, Server.answer, hy, h.stream, db, y]
  · exact ⟨h.store, by rw [h.stream], h.clock, h.locks, h.party, h.dispatcher, _, _,
      Function.update_self _ _ _, h.clock.le⟩

/-- Nothing is left of a session that was closed. -/
theorem Calling.close (cfg : Config) (h : Calling d sid t key now x W s) {how : Closing}
    {t' : Tables} {c : Closed Answer Op}
    (hc : s.mysql.close sid how = some (s.mysql.drop sid t', c)) :
    ∃ s', s.step cfg (.close sid how) = some (s', [.closed sid c]) ∧ Ready d t' key now s' ∧
      s'.mysql.sessions sid = none := by
  refine ⟨({ s with mysql := s.mysql.drop sid t' } : State).setDispatcher d ⟨none, false, true⟩,
    ?_, ⟨rfl, h.stream, h.clock, fun k => ?_, Function.update_self _ _ _⟩,
    Function.update_self _ _ _⟩
  · simp [State.step, hc, State.deliver, h.party, h.dispatcher]
  · rcases h.locks k with hk | hk <;>
      simp [State.setDispatcher, Server.drop, Server.release, hk]

theorem Calling.commit (cfg : Config) {r : Answer} (h : Calling d sid t key now (.commit r) W s) :
    ∃ s', s.step cfg (.close sid .commit) = some (s', [.closed sid (.committed .dispatch r)]) ∧
      Ready d (applyAll t W) key now s' ∧ s'.mysql.sessions sid = none := by
  obtain ⟨began, since, hy, -⟩ := h.session
  exact h.close cfg (by simp [Server.close, hy, h.store])

theorem Calling.abort (cfg : Config) {r : Answer} (h : Calling d sid t key now (.abort r) W s) :
    ∃ s', s.step cfg (.close sid .abort) = some (s', [.closed sid (.aborted .dispatch r)]) ∧
      Ready d t key now s' ∧ s'.mysql.sessions sid = none := by
  obtain ⟨began, since, hy, -⟩ := h.session
  exact h.close cfg (by simp [Server.close, hy, h.store])

/-! ### What is not called for -/

theorem Calling.exec_none (h : Calling d sid t key now x W s) (hx : x.Ended) (t' : ℕ) :
    s.step cfg (.exec sid t') = none := by
  obtain ⟨began, since, hy, -⟩ := h.session
  cases x with
  | commit => simp [State.step, Server.exec, hy]
  | abort => simp [State.step, Server.exec, hy]
  | _ => exact absurd hx id

theorem Calling.publish_none (h : Calling d sid t key now x W s) (hx : ∀ o next, x ≠ .call o next) :
    s.step cfg (.publish sid true true) = none := by
  obtain ⟨began, since, hy, -⟩ := h.session
  cases x with
  | call o next => exact absurd rfl (hx o next)
  | _ => simp [State.step, Server.waiting, hy]

theorem Calling.commit_none {r : Answer} (h : Calling d sid t key now (.abort r) W s) :
    s.step cfg (.close sid .commit) = none := by
  obtain ⟨began, since, hy, -⟩ := h.session
  simp [State.step, Server.close, hy]

theorem close_none (h : s.mysql.sessions sid = none) (how : Closing) :
    s.step cfg (.close sid how) = none := by
  simp [State.step, Server.close, h]

/-! ### A call as a whole -/

/-- What a call of `Dispatch` does to the tables and to the stream, and what happens in
    it. -/
inductive Dispatched (ts : Times) (t : Tables) (key : Redis.Key Message WorkerId) :
    Tables → Redis.Key Message WorkerId → List Event → Prop
  | drained {sid : Sid} (h : nextDue ts.scan t (fun _ => true) = none) :
      Dispatched ts t key t key [.closed sid (.aborted .dispatch .drained)]
  | dropped {sid : Sid} {o : OutboxRow} (ho : nextDue ts.scan t (fun _ => true) = some o)
      (hover : t.live o.place = false) :
      Dispatched ts t key (t.apply (.deleteOutbox o.place o.id)) key
        [.closed sid (.committed .dispatch (.dispatched o.place))]
  | published {sid : Sid} {o : OutboxRow} (ho : nextDue ts.scan t (fun _ => true) = some o)
      (hlive : t.live o.place = true) :
      Dispatched ts t key (t.apply (.markOutbox o.place o.id ts.write))
        (key.xadd (encode o.place))
        [.published o ⟨key.nextId, encode o.place⟩,
          .closed sid (.committed .dispatch (.dispatched o.place))]

theorem Ready.dispatched (cfg : Config) (h : Ready d t key now s)
    (hforeign : ∀ o ∈ t.jobOutbox, (t.job? o.place.jobId).isSome) {ts : Times}
    (hts : now ≤ ts.scan) : ∃ s' es t' key', s.dispatchAlone cfg d ts = (s', es) ∧
      Ready d t' key' ts.write s' ∧ Dispatched ts t key t' key' es := by
  obtain ⟨s₁, h₁, hc₁⟩ := h.begin cfg
  obtain ⟨s₂, h₂, hc₂⟩ := hc₁.advance cfg hts
  obtain ⟨s₃, n, h₃, hc₃⟩ := hc₂.scan cfg
  obtain ⟨s₄, h₄, hc₄⟩ := hc₃.advance cfg ts.scan_le_read
  rw [← h.clock] at h₂
  rw [State.dispatchAlone, Times.dispatch, State.play_some h₁, State.play_some h₂,
    State.play_some h₃, State.play_some h₄]
  cases hdue : nextDue ts.scan t fun _ => true with
  | none =>
    -- Nothing is due: `tx.Rollback` at once.
    rw [hdue] at hc₄
    obtain ⟨s₅, h₅, hc₅⟩ := hc₄.advance cfg ts.read_le_write
    obtain ⟨s₆, h₆, hr, -⟩ := hc₅.abort cfg
    rw [State.play_none (hc₄.exec_none trivial _), State.play_none (hc₄.publish_none (by simp)),
      State.play_some h₅, State.play_none (hc₅.exec_none trivial _),
      State.play_none hc₅.commit_none, State.play_some h₆]
    exact ⟨s₆, _, t, key, rfl, hr, .drained hdue⟩
  | some o =>
    have ho := (nextDue_some hdue).1
    obtain ⟨job, hjob⟩ := Option.isSome_iff_exists.1 (hforeign o ho)
    simp only [hdue, Option.map_some, Tables.out?_of_mem ho] at hc₄
    obtain ⟨s₅, m, h₅, hc₅⟩ := hc₄.read cfg
    simp only [hjob] at hc₅
    by_cases hover : job.generation ≠ o.place.generation ∨ job.terminal
    -- The generation of the row is over: the row is deleted.
    · rw [if_pos hover] at hc₅
      obtain ⟨s₆, h₆, hc₆⟩ := hc₅.advance cfg ts.read_le_write
      obtain ⟨s₇, k, h₇, hc₇⟩ := hc₆.stmt cfg
      obtain ⟨s₈, h₈, hr, hgone⟩ := hc₇.commit cfg
      rw [State.play_some h₅, State.play_none (hc₅.publish_none (by simp)), State.play_some h₆,
        State.play_some h₇, State.play_some h₈, State.play_none (close_none hgone _)]
      refine ⟨s₈, _, _, key, rfl, hr, .dropped hdue ?_⟩
      simp only [Tables.live, hjob, Option.any_some, decide_eq_false_iff_not]
      tauto
    -- It is published, and marked.
    · rw [if_neg hover] at hc₅
      obtain ⟨s₆, h₆, hc₆⟩ := hc₅.publish cfg
      obtain ⟨s₇, h₇, hc₇⟩ := hc₆.advance cfg ts.read_le_write
      obtain ⟨s₈, k, h₈, hc₈⟩ := hc₇.stmt cfg
      obtain ⟨s₉, h₉, hr, hgone⟩ := hc₈.commit cfg
      rw [State.play_some h₅, State.play_some h₆, State.play_some h₇, State.play_some h₈,
        State.play_some h₉, State.play_none (close_none hgone _)]
      refine ⟨s₉, _, _, _, rfl, hr, .published hdue ?_⟩
      simp only [Tables.live, hjob, Option.any_some, decide_eq_true_eq]
      tauto

end Calls

/-! ## Visits -/

section Visits

variable {t₀ t t' : Tables} {lo now u : ℕ} {vs : List (OutboxRow × ℕ)} {o : OutboxRow}

/-- The tables `t` are the tables `t₀` after the visits `vs`: each is of a row of its own,
    which is marked with the time of the visit, not before `lo`, if its generation is
    live, and else is gone. -/
structure Drained (t₀ t : Tables) (lo : ℕ) (vs : List (OutboxRow × ℕ)) : Prop where
  jobs : t.jobs = t₀.jobs
  logs : t.jobAuditLogs = t₀.jobAuditLogs
  nodup : (vs.map (·.1.place)).Nodup
  mem : ∀ v ∈ vs, v.1 ∈ t₀.jobOutbox ∧ lo ≤ v.2
  kept : ∀ v ∈ vs, t₀.live v.1.place = true →
    t.out? v.1.place = some { v.1 with publishedAt := some v.2 }
  gone : ∀ v ∈ vs, t₀.live v.1.place = false → t.out? v.1.place = none
  other : ∀ p, p ∉ vs.map (·.1.place) → t.out? p = t₀.out? p

theorem Drained.live (h : Drained t₀ t lo vs) (p : Place) : t.live p = t₀.live p := by
  rw [Tables.live, Tables.live, Tables.job?, h.jobs]
  rfl

theorem nextDue_eq_none :
    nextDue now t (fun _ => true) = none ↔ ∀ o ∈ t.jobOutbox, o.due now = false := by
  simp [nextDue, List.argmin_eq_none, List.filter_eq_nil_iff]

/-- A row that was marked since `lo` is not due until 30 seconds later. -/
theorem Drained.fresh (h : Drained t₀ t lo vs) (hnow : now ≤ lo + republishAfter)
    (ho : o ∈ t.jobOutbox) (hdue : o.due now = true) :
    o ∈ t₀.jobOutbox ∧ o.place ∉ vs.map (·.1.place) := by
  have hout : t.out? o.place = some o := Tables.out?_of_mem ho
  have hnew : o.place ∉ vs.map (·.1.place) := by
    intro hmem
    obtain ⟨v, hv, hp⟩ := List.mem_map.1 hmem
    rw [← hp] at hout
    cases hlive : t₀.live v.1.place with
    | true =>
      obtain rfl := Option.some.inj ((h.kept v hv hlive).symm.trans hout)
      have hle := Nat.add_le_add_right (h.mem v hv).2 republishAfter
      exact absurd (due_published hdue rfl) (Nat.not_lt.2 (hnow.trans hle))
    | false => exact absurd ((h.gone v hv hlive).symm.trans hout) (by simp)
  exact ⟨Tables.out?_mem ((h.other _ hnew).symm.trans hout), hnew⟩

/-- A further row is visited. -/
theorem Drained.visit (h : Drained t₀ t lo vs) (hnow : now ≤ lo + republishAfter) (hu : lo ≤ u)
    (ho : nextDue now t (fun _ => true) = some o) (hjobs : t'.jobs = t.jobs)
    (hlogs : t'.jobAuditLogs = t.jobAuditLogs)
    (hkept : t₀.live o.place = true → t'.out? o.place = some { o with publishedAt := some u })
    (hgone : t₀.live o.place = false → t'.out? o.place = none)
    (hother : ∀ p ≠ o.place, t'.out? p = t.out? p) : Drained t₀ t' lo (vs ++ [(o, u)]) := by
  obtain ⟨hmem, hdue, -⟩ := nextDue_some ho
  obtain ⟨hmem₀, hnew⟩ := h.fresh hnow hmem hdue
  -- What was visited before is another place.
  have hne : ∀ v ∈ vs, v.1.place ≠ o.place :=
    fun v hv hp => hnew (List.mem_map.2 ⟨v, hv, hp⟩)
  refine ⟨hjobs.trans h.jobs, hlogs.trans h.logs, nodup_append_key h.nodup hnew, ?_, ?_, ?_, ?_⟩
  · rintro v hv
    rcases List.mem_append.1 hv with hv | hv
    · exact h.mem v hv
    · obtain rfl := List.mem_singleton.1 hv
      exact ⟨hmem₀, hu⟩
  · intro v hv hlive
    rcases List.mem_append.1 hv with hv | hv
    · rw [hother _ (hne v hv), h.kept v hv hlive]
    · obtain rfl := List.mem_singleton.1 hv
      exact hkept hlive
  · intro v hv hlive
    rcases List.mem_append.1 hv with hv | hv
    · rw [hother _ (hne v hv), h.gone v hv hlive]
    · obtain rfl := List.mem_singleton.1 hv
      exact hgone hlive
  · intro p hp
    rw [List.map_append, List.mem_append, not_or] at hp
    rw [hother p fun heq => hp.2 (by simp [heq]), h.other p hp.1]

theorem Drained.drop (h : Drained t₀ t lo vs) (hnow : now ≤ lo + republishAfter) (hu : lo ≤ u)
    (ho : nextDue now t (fun _ => true) = some o) (hover : t.live o.place = false) :
    Drained t₀ (t.apply (.deleteOutbox o.place o.id)) lo (vs ++ [(o, u)]) := by
  rw [h.live] at hover
  refine h.visit hnow hu ho rfl rfl (fun hlive => by simp [hover] at hlive) (fun _ => ?_) ?_
  · rw [Tables.out?_deleteOutbox, if_pos rfl, Tables.out?_of_mem (nextDue_some ho).1]
    simp
  · intro p hp
    rw [Tables.out?_deleteOutbox, if_neg hp]

theorem Drained.mark (h : Drained t₀ t lo vs) (hnow : now ≤ lo + republishAfter) (hu : lo ≤ u)
    (ho : nextDue now t (fun _ => true) = some o) (hlive : t.live o.place = true) :
    Drained t₀ (t.apply (.markOutbox o.place o.id u)) lo (vs ++ [(o, u)]) := by
  rw [h.live] at hlive
  refine h.visit hnow hu ho rfl rfl (fun _ => ?_) (fun hover => by simp [hlive] at hover) ?_
  · rw [Tables.out?_markOutbox, Tables.out?_of_mem (nextDue_some ho).1]
    simp [OutboxRow.mark]
  · intro p hp
    rw [Tables.out?_markOutbox]
    cases hq : t.out? p with
    | none => rfl
    | some q =>
      have : q.place ≠ o.place := Tables.out?_place hq ▸ hp
      simp [OutboxRow.mark, this]

end Visits

/-! ## Calls until nothing is due -/

section Loops

variable {cfg : Config} {s : State} {d : ℕ} {ts : ℕ → Times} {vs : List (OutboxRow × ℕ)}
  {t : Tables}

theorem dispatches_succ (n : ℕ) : s.dispatches cfg d ts (n + 1) =
    (((s.dispatches cfg d ts n).1.dispatchAlone cfg d (ts n)).1,
      (s.dispatches cfg d ts n).2 ++ s.nextDispatch cfg d ts n) := rfl

/-- The visits of rows whose generation is live. -/
def Tables.liveVisits (t : Tables) (vs : List (OutboxRow × ℕ)) : List OutboxRow :=
  (vs.map (·.1)).filter (t.live ·.place)

theorem liveVisits_append (v : OutboxRow × ℕ) : t.liveVisits (vs ++ [v]) =
    t.liveVisits vs ++ if t.live v.1.place then [v.1] else [] := by
  simp [Tables.liveVisits, List.filter_singleton]

/-- `vs` are the visits of the first calls, which have all returned `true`. -/
structure Visited (cfg : Config) (s : State) (d : ℕ) (ts : ℕ → Times)
    (vs : List (OutboxRow × ℕ)) (t : Tables) : Prop where
  ready : ∃ now, now ≤ (ts vs.length).scan ∧ Ready d t
    ((s.mysql.store.liveVisits vs).foldl (fun key o => key.xadd (encode o.place)) s.stream) now
    (s.dispatches cfg d ts vs.length).1
  drained : Drained s.mysql.store t (ts 0).scan vs
  published : publications (s.dispatches cfg d ts vs.length).2 = s.mysql.store.liveVisits vs
  returned : ∀ k < vs.length, more? (s.nextDispatch cfg d ts k) = some true
  visits : ∀ k v, vs[k]? = some v → v.2 = (ts k).write ∧
    ∃ sid, .closed sid (.committed .dispatch (.dispatched v.1.place)) ∈ s.nextDispatch cfg d ts k

theorem publications_append (es es' : List Event) :
    publications (es ++ es') = publications es ++ publications es' := List.filterMap_append

/-- A further call visits a further row. -/
theorem Visited.visit (h : Visited cfg s d ts vs t) (hmono : ∀ n, (ts n).write ≤ (ts (n + 1)).scan)
    {s' : State} {es : List Event} {t' : Tables} {key : Redis.Key Message WorkerId}
    {v : OutboxRow × ℕ}
    (heq : (s.dispatches cfg d ts vs.length).1.dispatchAlone cfg d (ts vs.length) = (s', es))
    (hready : Ready d t' key (ts vs.length).write s')
    (hkey : key = (s.mysql.store.liveVisits (vs ++ [v])).foldl
      (fun key o => key.xadd (encode o.place)) s.stream)
    (hd : Drained s.mysql.store t' (ts 0).scan (vs ++ [v])) (hv : v.2 = (ts vs.length).write)
    (hpub : publications es = if s.mysql.store.live v.1.place then [v.1] else [])
    (hmore : more? es = some true)
    (hclosed : ∃ sid, .closed sid (.committed .dispatch (.dispatched v.1.place)) ∈ es) :
    Visited cfg s d ts (vs ++ [v]) t' := by
  have hes : s.nextDispatch cfg d ts vs.length = es := by rw [State.nextDispatch, heq]
  have hlen : (vs ++ [v]).length = vs.length + 1 := by simp
  refine ⟨⟨(ts vs.length).write, ?_, ?_⟩, hd, ?_, fun k hk => ?_, fun k v' hv' => ?_⟩
  · rw [hlen]
    exact hmono _
  · rw [hlen, dispatches_succ, heq]
    exact hkey ▸ hready
  · rw [hlen, dispatches_succ, publications_append, h.published, liveVisits_append, hes, hpub]
  · rw [hlen] at hk
    rcases Nat.lt_succ_iff_lt_or_eq.1 hk with hk | rfl
    · exact h.returned k hk
    · exact hes ▸ hmore
  · rw [List.getElem?_append] at hv'
    split at hv'
    · exact h.visits k v' hv'
    · obtain ⟨hk, rfl⟩ : k = vs.length ∧ v = v' := by
        rw [List.getElem?_singleton] at hv'
        split at hv'
        · exact ⟨by omega, Option.some.inj hv'⟩
        · cases hv'
      subst hk
      exact ⟨hv, hes ▸ hclosed⟩

/-- After some visits, the next call visits a further row, or nothing is due and it
    returns `false`. -/
theorem Visited.next (h : Visited cfg s d ts vs t)
    (hforeign : ∀ o ∈ s.mysql.store.jobOutbox, (s.mysql.store.job? o.place.jobId).isSome)
    (hmono : ∀ n, (ts n).write ≤ (ts (n + 1)).scan)
    (hwindow : (ts vs.length).write < (ts 0).scan + republishAfter) :
    (∃ v t', Visited cfg s d ts (vs ++ [v]) t') ∨
      more? (s.nextDispatch cfg d ts vs.length) = some false ∧
      nextDue (ts vs.length).scan t (fun _ => true) = none ∧
      (s.dispatches cfg d ts (vs.length + 1)).1.mysql.store = t ∧
      (s.dispatches cfg d ts (vs.length + 1)).1.stream = (s.mysql.store.liveVisits vs).foldl
        (fun key o => key.xadd (encode o.place)) s.stream ∧
      publications (s.dispatches cfg d ts (vs.length + 1)).2 = s.mysql.store.liveVisits vs := by
  obtain ⟨now, hnow, hready⟩ := h.ready
  have hlo : ∀ n, (ts 0).scan ≤ (ts n).scan := fun n => by
    induction n with
    | zero => exact le_rfl
    | succ n ih =>
      exact ih.trans ((ts n).scan_le_read.trans ((ts n).read_le_write.trans (hmono n)))
  have hscan : (ts vs.length).scan ≤ (ts vs.length).write :=
    (ts _).scan_le_read.trans (ts _).read_le_write
  have hfresh := hscan.trans hwindow.le
  have hwrite := (hlo vs.length).trans hscan
  -- Every row left is at the place of a row from the start, and so has its job.
  have hforeign' : ∀ o ∈ t.jobOutbox, (t.job? o.place.jobId).isSome := by
    intro o ho
    rw [Tables.job?, h.drained.jobs]
    have hout : t.out? o.place = some o := Tables.out?_of_mem ho
    by_cases hp : o.place ∈ vs.map (·.1.place)
    · obtain ⟨v, hv, hp⟩ := List.mem_map.1 hp
      exact hp ▸ hforeign v.1 (h.drained.mem v hv).1
    · exact hforeign o (Tables.out?_mem ((h.drained.other _ hp).symm.trans hout))
  obtain ⟨s', es, t', key', heq, hready', hd⟩ := hready.dispatched cfg hforeign' hnow
  cases hd with
  | drained hnone =>
    refine .inr ⟨?_, hnone, ?_, ?_, ?_⟩
    · rw [State.nextDispatch, heq]
      rfl
    · rw [dispatches_succ, heq]
      exact hready'.store
    · rw [dispatches_succ, heq]
      exact hready'.stream
    · rw [dispatches_succ, publications_append, h.published, State.nextDispatch, heq]
      exact List.append_nil _
  | @dropped sid o ho hover =>
    have hover' := h.drained.live o.place ▸ hover
    refine .inl ⟨(o, _), _, h.visit hmono heq hready' ?_
      (h.drained.drop hfresh hwrite ho hover) rfl ?_ rfl ⟨sid, List.mem_singleton_self _⟩⟩
    · rw [liveVisits_append, hover']
      simp
    · rw [hover']
      rfl
  | @published sid o ho hlive =>
    have hlive' := h.drained.live o.place ▸ hlive
    refine .inl ⟨(o, _), _, h.visit hmono heq hready' ?_
      (h.drained.mark hfresh hwrite ho hlive) rfl ?_ rfl
      ⟨sid, List.mem_cons_of_mem _ (List.mem_singleton_self _)⟩⟩
    · rw [liveVisits_append, hlive']
      simp
    · rw [hlive']
      rfl

/-- No more rows are visited than there are. -/
theorem Drained.length_le {t₀ : Tables} {lo : ℕ} (h : Drained t₀ t lo vs) :
    vs.length ≤ t₀.jobOutbox.length := by
  have hsub : vs.map (·.1.place) ⊆ t₀.jobOutbox.map (·.place) := fun p hp => by
    obtain ⟨v, hv, rfl⟩ := List.mem_map.1 hp
    exact List.mem_map.2 ⟨v.1, (h.mem v hv).1, rfl⟩
  simpa using (List.subperm_of_subset h.nodup hsub).length_le

/-- The calls return `true` until one of them returns `false`. -/
theorem Visited.finish (h : Visited cfg s d ts vs t)
    (hforeign : ∀ o ∈ s.mysql.store.jobOutbox, (s.mysql.store.job? o.place.jobId).isSome)
    (hmono : ∀ n, (ts n).write ≤ (ts (n + 1)).scan)
    (hwindow : ∀ n ≤ s.mysql.store.jobOutbox.length, (ts n).write < (ts 0).scan + republishAfter) :
    ∃ vs t, Visited cfg s d ts vs t ∧ more? (s.nextDispatch cfg d ts vs.length) = some false ∧
      nextDue (ts vs.length).scan t (fun _ => true) = none ∧
      (s.dispatches cfg d ts (vs.length + 1)).1.mysql.store = t ∧
      (s.dispatches cfg d ts (vs.length + 1)).1.stream = (s.mysql.store.liveVisits vs).foldl
        (fun key o => key.xadd (encode o.place)) s.stream ∧
      publications (s.dispatches cfg d ts (vs.length + 1)).2 = s.mysql.store.liveVisits vs := by
  -- Induction on the number of rows that are left to visit.
  obtain ⟨m, hm⟩ : ∃ m, s.mysql.store.jobOutbox.length - vs.length = m := ⟨_, rfl⟩
  induction m generalizing vs t with
  | zero =>
    rcases h.next hforeign hmono (hwindow _ h.drained.length_le) with ⟨v, t', hv⟩ | hend
    · have := hv.drained.length_le
      rw [List.length_append, List.length_singleton] at this
      omega
    · exact ⟨vs, t, h, hend⟩
  | succ m ih =>
    rcases h.next hforeign hmono (hwindow _ h.drained.length_le) with ⟨v, t', hv⟩ | hend
    · exact ih hv (by rw [List.length_append, List.length_singleton]; omega)
    · exact ⟨vs, t, h, hend⟩

end Loops

/-! ## The loop -/

/-- The dispatcher loop drains the outbox and stops. Alone, and within 30 seconds, its
    calls return `true` at most once for each row, and then `false`. No row is visited
    twice, and every row that is due by then was visited. The visited rows of live
    generations, and no others, have been published, once each and under their own
    place, and are marked with the time; the others that were visited are gone; all
    other rows and the other tables are as they were. -/
theorem dispatch_drains {cfg : Config} {s : State} {d : ℕ} {ts : ℕ → Times}
    (hd : s.dispatchers d = some ⟨none, false, true⟩) (hlocks : ∀ k, s.mysql.locks k = none)
    (hforeign : ∀ o ∈ s.mysql.store.jobOutbox, (s.mysql.store.job? o.place.jobId).isSome)
    (hstart : s.mysql.clock ≤ (ts 0).scan) (hmono : ∀ n, (ts n).write ≤ (ts (n + 1)).scan)
    (hwindow : ∀ n ≤ s.mysql.store.jobOutbox.length, (ts n).write < (ts 0).scan + republishAfter) :
    ∃ vs : List (OutboxRow × ℕ),
      vs.length ≤ s.mysql.store.jobOutbox.length ∧
      (∀ k < vs.length, more? (s.nextDispatch cfg d ts k) = some true) ∧
      more? (s.nextDispatch cfg d ts vs.length) = some false ∧
      (vs.map (·.1.place)).Nodup ∧
      (∀ k v, vs[k]? = some v → v.1 ∈ s.mysql.store.jobOutbox ∧ v.2 = (ts k).write ∧ ∃ sid,
        .closed sid (.committed .dispatch (.dispatched v.1.place)) ∈ s.nextDispatch cfg d ts k) ∧
      (∀ o ∈ s.mysql.store.jobOutbox, o.due (ts vs.length).scan = true → ∃ u, (o, u) ∈ vs) ∧
      ∃ s' es, s.dispatches cfg d ts (vs.length + 1) = (s', es) ∧
        publications es = s.mysql.store.liveVisits vs ∧
        s'.stream = (s.mysql.store.liveVisits vs).foldl
          (fun key o => key.xadd (encode o.place)) s.stream ∧
        (∀ v ∈ vs, s.mysql.store.live v.1.place = true →
          s'.mysql.store.out? v.1.place = some { v.1 with publishedAt := some v.2 }) ∧
        (∀ v ∈ vs, s.mysql.store.live v.1.place = false →
          s'.mysql.store.out? v.1.place = none) ∧
        (∀ p, p ∉ vs.map (·.1.place) → s'.mysql.store.out? p = s.mysql.store.out? p) ∧
        (∀ o ∈ s'.mysql.store.jobOutbox, o.due (ts vs.length).scan = false) ∧
        s'.mysql.store.jobs = s.mysql.store.jobs ∧
        s'.mysql.store.jobAuditLogs = s.mysql.store.jobAuditLogs := by
  have hready : Ready d s.mysql.store s.stream s.mysql.clock s := ⟨rfl, rfl, rfl, hlocks, hd⟩
  have hvisited : Visited cfg s d ts [] s.mysql.store :=
    ⟨⟨_, hstart, hready⟩, ⟨rfl, rfl, by simp, by simp, by simp, by simp, fun _ _ => rfl⟩, rfl,
      by simp, by simp⟩
  obtain ⟨vs, t, h, hfalse, hnone, hstore, hstream, hpub⟩ :=
    hvisited.finish hforeign hmono hwindow
  have hidle := nextDue_eq_none.1 hnone
  refine ⟨vs, h.drained.length_le, h.returned, hfalse, h.drained.nodup, fun k v hv => ?_,
    fun o ho hdue => ?_, _, _, rfl, hpub, hstream, ?_, ?_, ?_, ?_, ?_, ?_⟩
  · exact ⟨(h.drained.mem v (List.mem_of_getElem? hv)).1, h.visits k v hv⟩
  · -- A row that nobody has visited would still be due.
    by_contra hno
    have hp : o.place ∉ vs.map (·.1.place) := by
      intro hp
      obtain ⟨v, hv, hp⟩ := List.mem_map.1 hp
      have := Tables.out?_of_mem (h.drained.mem v hv).1
      rw [hp, Tables.out?_of_mem ho] at this
      obtain rfl := Option.some.inj this
      exact hno ⟨v.2, hv⟩
    have hout := (h.drained.other _ hp).trans (Tables.out?_of_mem ho)
    simp [hidle o (Tables.out?_mem hout)] at hdue
  · exact hstore ▸ h.drained.kept
  · exact hstore ▸ h.drained.gone
  · exact hstore ▸ h.drained.other
  · exact hstore ▸ hidle
  · exact hstore ▸ h.drained.jobs
  · exact hstore ▸ h.drained.logs

/-- Four rows of the outbox: one of a generation that is over, one that was published more than
    30 seconds ago, one that waits for a retry, and one that is new. -/
def fourRows : Tables :=
  (State.after (firstClaim ++ finishing "w" 4 0 (.failed "no" true) ++
    requeueing 1 5 0 firstJob ++ dispatching 0 7 0 ++
    .advance 30500000 :: claiming "w" 8 30500000 ++
    finishing "w" 9 30500000 (.failed "no" false) ++
    creating 2 10 30500000 firstInput secondJob)).1.mysql.store

/-- The first of the rows is removed, and the second and the last are published. -/
theorem dispatch_drains_first :
    let s : State := { State.fresh with
      mysql := { State.fresh.mysql with store := fourRows }
      dispatchers := fun _ => some ⟨none, false, true⟩ }
    let ts : ℕ → Times := fun _ => ⟨30600000, 30600000, 30600000, le_rfl, le_rfl⟩
    ∃ vs : List (OutboxRow × ℕ), vs.length ≤ 4 ∧
      more? (s.nextDispatch (.defaults id) 0 ts vs.length) = some false ∧
      ∃ s' es, s.dispatches (.defaults id) 0 ts (vs.length + 1) = (s', es) ∧
        s'.mysql.store.out? ⟨firstJob, 1, 1⟩ = none ∧
        (∀ p ∈ [⟨firstJob, 2, 1⟩, ⟨secondJob, 1, 1⟩],
          ∃ o ∈ publications es, o.place = p ∧
            (s'.mysql.store.out? p).bind (·.publishedAt) = some 30600000) ∧
        ∀ o ∈ s'.mysql.store.jobOutbox, o.due 30600000 = false := by
  intro s ts
  have hforeign : ∀ o ∈ fourRows.jobOutbox, (fourRows.job? o.place.jobId).isSome := by
    decide +kernel
  obtain ⟨vs, hlen, -, hfalse, -, hvisit, hdue, s', es, heq, hpub, -, hkept, hgone, -, hidle, -⟩ :=
    @dispatch_drains (.defaults id) s 0 ts rfl (fun _ => rfl) hforeign
      (by decide) (fun _ => le_rfl) (fun _ _ => Nat.lt_add_of_pos_right (by decide))
  -- What is due and live is published, and marked with the time of the visit.
  have hlive (o : OutboxRow) (ho : o ∈ fourRows.jobOutbox) (hnow : o.due 30600000 = true)
      (hl : fourRows.live o.place = true) : o ∈ publications es ∧
        (s'.mysql.store.out? o.place).bind (·.publishedAt) = some 30600000 := by
    obtain ⟨u, hu⟩ := hdue o ho hnow
    obtain ⟨k, hk⟩ := List.mem_iff_getElem?.1 hu
    have hwhen : u = 30600000 := (hvisit k _ hk).2.1
    refine ⟨hpub ▸ List.mem_filter.2 ⟨List.mem_map.2 ⟨_, hu, rfl⟩, hl⟩, ?_⟩
    rw [hkept _ hu hl, Option.bind_some, hwhen]
  have hover : ∃ o ∈ fourRows.jobOutbox, o.place = ⟨firstJob, 1, 1⟩ ∧
      o.due 30600000 = true ∧ fourRows.live o.place = false := by decide +kernel
  have hrows : ∀ p ∈ [⟨firstJob, 2, 1⟩, ⟨secondJob, 1, 1⟩], ∃ o ∈ fourRows.jobOutbox,
      o.place = p ∧ o.due 30600000 = true ∧ fourRows.live o.place = true := by decide +kernel
  refine ⟨vs, hlen, hfalse, s', es, heq, ?_, fun p hp => ?_, hidle⟩
  · obtain ⟨o, ho, hp, hnow, hl⟩ := hover
    obtain ⟨u, hu⟩ := hdue o ho hnow
    exact hp ▸ hgone _ hu hl
  · obtain ⟨o, ho, rfl, hnow, hl⟩ := hrows p hp
    exact ⟨o, (hlive o ho hnow hl).1, rfl, (hlive o ho hnow hl).2⟩

end ScaleQueue
