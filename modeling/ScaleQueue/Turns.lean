import ScaleQueue.System

/-!
# What a worker does with its delivery

The steps of a worker (`Worker.act`) and the answers it gets
(`Worker.returned`), as far as they concern the delivery in hand: its phase
before and after, the session that is opened or left, and the events. Where the
loop of `Consumer.Start` stands is left out.
-/

namespace ScaleQueue

open Locking

/-- What a step of worker `w` does with the delivery in hand. -/
inductive Acted (s : State) (w : WorkerId) (x x' : Worker) (fx : Effects) : Prop
  /-- Nothing. -/
  | same (hp : x'.phase = x.phase) (ho : fx.opens = none) (hl : fx.leaves = none)
      (hh : fx.handles = 0) (he : fx.events = [])
  | delivered (h : Handle) (hx : x.phase = .idle)
      (hp : x'.phase = .claiming h ⟨.worker w, s.opened⟩)
      (ho : fx.opens = some (.worker w, .claim h.jobId h.generation w)) (hl : fx.leaves = none)
      (hh : fx.handles = 1) (he : fx.events = [.delivered w h.number h.entry])
      (hnum : h.number = s.handled) (hlive : h.done = false)
      (hdec : decode h.entry.values = some (h.jobId, h.generation))
  | malformed (e : Redis.Entry Message) (hx : x.phase = .idle) (hp : x'.phase = .idle)
      (ho : fx.opens = none) (hl : fx.leaves = none) (hh : fx.handles = 1)
      (he : fx.events = [.delivered w s.handled e, .retained w s.handled])
      (hdec : decode e.values = none)
  | ticked {h j r} (hx : x.phase = .running h j r .waiting) (hlive : h.done = false)
      (hp : x'.phase = .running h j r (.renewing ⟨.beat w, s.opened⟩))
      (ho : fx.opens = some (.beat w, .renew j)) (hl : fx.leaves = none) (hh : fx.handles = 0)
      (he : fx.events = [])
  | result {h j b r} (hx : x.phase = .running h j none b) (hr : r ≠ .panicked)
      (hp : x'.phase = .running h j (some r) b) (ho : fx.opens = none) (hl : fx.leaves = none)
      (hh : fx.handles = 0) (he : fx.events = [.returned w h.number j r])
  | panicked {h j b} (hx : x.phase = .running h j none b) (hp : x'.phase = .idle)
      (ho : fx.opens = none) (hl : fx.leaves = none) (hh : fx.handles = 0)
      (he : fx.events = [.returned w h.number j .panicked, .retained w h.number])
  | retained {h j r b} (hx : x.phase = .running h j (some r) b)
      (hwhy : b = .failed ∨ b = .waiting ∧ h.done = true) (hp : x'.phase = .idle)
      (ho : fx.opens = none) (hl : fx.leaves = none) (hh : fx.handles = 0)
      (he : fx.events = [.retained w h.number])
  | settled {h j r jitter e message delay} (hx : x.phase = .running h j (some r) .waiting)
      (hlive : h.done = false) (hout : outcome j r jitter = some (e, message, delay))
      (hp : x'.phase = .finishing h j ⟨.worker w, s.opened⟩)
      (ho : fx.opens = some (.worker w, .finish j e message delay)) (hl : fx.leaves = none)
      (hh : fx.handles = 0) (he : fx.events = [])
  | acked {h j} (hx : x.phase = .acking h j) (hp : x'.phase = .idle) (ho : fx.opens = none)
      (hl : fx.leaves = none) (hh : fx.handles = 0)
      (he : fx.events = [.acked w h.number h.entry j])
  | abandoned {h} (hx : x.phase.handle? = some h) (hp : x'.phase = x.phase.cancel)
      (ho : fx.opens = none) (hl : fx.leaves = x.phase.session?) (hh : fx.handles = 0)
      (he : fx.events = [.cancelled w h.number])
  | crashed (hp : x'.phase = .idle) (ho : fx.opens = none) (hl : fx.leaves = x.phase.session?)
      (hh : fx.handles = 0) (he : fx.events = [])

/-- What the answer to session `sid` does with the delivery in hand of worker `w`. -/
inductive Told (w : WorkerId) (sid : Sid) (a : Option Answer) (x x' : Worker) (fx : Effects) : Prop
  | claimed {h j} (hx : x.phase = .claiming h sid) (ha : a = some (.job j))
      (hreg : j.type ∈ registry) (hp : x'.phase = .running h j none .waiting)
      (he : fx.events = [.reported w h.number .claim a, .started w h.number j])
  | unregistered {h j} (hx : x.phase = .claiming h sid) (ha : a = some (.job j))
      (hreg : j.type ∉ registry)
      (hp : x'.phase = .running h j (some (unregistered j.type)) .waiting)
      (he : fx.events = [.reported w h.number .claim a])
  | nothing {h why} (hx : x.phase = .claiming h sid) (ha : a = some (.noJob why))
      (hp : x'.phase = .acking h none) (he : fx.events = [.reported w h.number .claim a])
  | unclaimed {h} (hx : x.phase = .claiming h sid) (ha : ∀ j, a ≠ some (.job j))
      (ha' : ∀ why, a ≠ some (.noJob why)) (hp : x'.phase = .idle)
      (he : fx.events = [.reported w h.number .claim a, .retained w h.number])
  | finished {h j} (hx : x.phase = .finishing h j sid) (ha : a = some .done)
      (hlive : h.done = false) (hp : x'.phase = .acking h (some j))
      (he : fx.events = [.reported w h.number .finish a])
  | unfinished {h j a'} (hx : x.phase = .finishing h j sid)
      (ha : a' = a ∨ a' = none ∧ h.done = true)
      (ha' : a' ≠ some .done) (hp : x'.phase = .idle)
      (he : fx.events = [.reported w h.number .finish a', .retained w h.number])
  | renewed {h j r} (hx : x.phase = .running h j r (.renewing sid)) (ha : a = some .done)
      (hp : x'.phase = .running h j r .waiting)
      (he : fx.events = [.reported w h.number .renew a])
  | unrenewed {h j r} (hx : x.phase = .running h j r (.renewing sid)) (ha : a ≠ some .done)
      (hp : x'.phase = .running h j r .failed)
      (he : fx.events = [.reported w h.number .renew a])

section

variable {cfg : Config} {s : State} {w : WorkerId} {x x' : Worker} {fx : Effects}

/-- Where the loop stands does not matter to `handle`. -/
theorem handle_acted {p : Point} (e : Redis.Entry Message) (hx : x.phase = .idle) :
    Acted s w x ({ x with point := p }.handle cfg s w e).1
      ({ x with point := p }.handle cfg s w e).2 := by
  unfold Worker.handle
  split
  · exact .malformed e hx rfl rfl rfl rfl rfl ‹_›
  · rename_i hdec
    exact .delivered ⟨s.handled, e, _, _, _, _⟩ hx rfl rfl rfl rfl rfl rfl rfl hdec

/-- What the worker reads from the stream changes nothing else. -/
theorem Acted.reading {key : Option (Redis.Key Message WorkerId)} (h : Acted s w x x' fx) :
    Acted s w x x' { fx with stream := key } := by
  cases h with
  | same hp ho hl hh he => exact .same hp ho hl hh he
  | delivered h hx hp ho hl hh he hnum hlive hdec =>
    exact .delivered h hx hp ho hl hh he hnum hlive hdec
  | malformed e hx hp ho hl hh he hdec => exact .malformed e hx hp ho hl hh he hdec
  | ticked hx hlive hp ho hl hh he => exact .ticked hx hlive hp ho hl hh he
  | result hx hr hp ho hl hh he => exact .result hx hr hp ho hl hh he
  | panicked hx hp ho hl hh he => exact .panicked hx hp ho hl hh he
  | retained hx hwhy hp ho hl hh he => exact .retained hx hwhy hp ho hl hh he
  | settled hx hlive hout hp ho hl hh he => exact .settled hx hlive hout hp ho hl hh he
  | acked hx hp ho hl hh he => exact .acked hx hp ho hl hh he
  | abandoned hx hp ho hl hh he => exact .abandoned hx hp ho hl hh he
  | crashed hp ho hl hh he => exact .crashed hp ho hl hh he

theorem act_cases {a : WorkerAct} (h : x.act cfg s w a = some (x', fx)) : Acted s w x x' fx := by
  cases a with
  | loop reachable =>
    simp only [Worker.act] at h
    split at h
    · split_ifs at h
      · obtain ⟨rfl, rfl⟩ := Prod.mk.inj (Option.some.inj h)
        exact .same rfl rfl rfl rfl rfl
      · obtain ⟨rfl, rfl⟩ := Prod.mk.inj (Option.some.inj h)
        exact .same rfl rfl rfl rfl rfl
      · split at h <;> obtain ⟨rfl, rfl⟩ := Prod.mk.inj (Option.some.inj h) <;>
          exact .same rfl rfl rfl rfl rfl
      · obtain ⟨rfl, rfl⟩ := Prod.mk.inj (Option.some.inj h)
        exact .same rfl rfl rfl rfl rfl
    · simp at h
  | recover =>
    simp only [Worker.act] at h
    split at h
    · rename_i hidle
      split at h
      · obtain ⟨rfl, rfl⟩ := Prod.mk.inj (Option.some.inj h)
        exact .same rfl rfl rfl rfl rfl
      · split_ifs at h
        · obtain ⟨rfl, rfl⟩ := Prod.mk.inj (Option.some.inj h)
          exact .same rfl rfl rfl rfl rfl
        · obtain ⟨rfl, rfl⟩ := Prod.mk.inj (Option.some.inj h)
          exact handle_acted _ hidle
    · simp at h
  | read reachable =>
    simp only [Worker.act] at h
    split at h
    · rename_i hidle
      split at h
      · split_ifs at h <;> obtain ⟨rfl, rfl⟩ := Prod.mk.inj (Option.some.inj h) <;>
          exact .same rfl rfl rfl rfl rfl
      · split_ifs at h
        · obtain ⟨rfl, rfl⟩ := Prod.mk.inj (Option.some.inj h)
          exact .same rfl rfl rfl rfl rfl
        · split at h
          · obtain ⟨rfl, rfl⟩ := Prod.mk.inj (Option.some.inj h)
            exact .same rfl rfl rfl rfl rfl
          · obtain ⟨rfl, rfl⟩ := Prod.mk.inj (Option.some.inj h)
            exact (handle_acted _ hidle).reading
    · simp at h
  | tick =>
    simp only [Worker.act] at h
    split at h
    · split_ifs at h with hdone
      obtain ⟨rfl, rfl⟩ := Prod.mk.inj (Option.some.inj h)
      exact .ticked ‹_› (by simpa using hdone) rfl rfl rfl rfl rfl
    · simp at h
  | result r =>
    simp only [Worker.act] at h
    split at h
    · split_ifs at h with hr
      · obtain ⟨rfl, rfl⟩ := Prod.mk.inj (Option.some.inj h)
        exact .panicked ‹_› rfl rfl rfl rfl (by rw [hr])
      · obtain ⟨rfl, rfl⟩ := Prod.mk.inj (Option.some.inj h)
        exact .result ‹_› hr rfl rfl rfl rfl rfl
    · simp at h
  | settle jitter =>
    simp only [Worker.act] at h
    split at h
    · obtain ⟨rfl, rfl⟩ := Prod.mk.inj (Option.some.inj h)
      exact .retained ‹_› (.inl rfl) rfl rfl rfl rfl rfl
    · split_ifs at h with hdone
      · obtain ⟨rfl, rfl⟩ := Prod.mk.inj (Option.some.inj h)
        exact .retained ‹_› (.inr ⟨rfl, hdone⟩) rfl rfl rfl rfl rfl
      · split at h
        · simp at h
        · obtain ⟨rfl, rfl⟩ := Prod.mk.inj (Option.some.inj h)
          exact .settled ‹_› (by simpa using hdone) ‹_› rfl rfl rfl rfl rfl
    · simp at h
  | ack applied =>
    simp only [Worker.act] at h
    split at h
    · obtain ⟨rfl, rfl⟩ := Prod.mk.inj (Option.some.inj h)
      exact .acked ‹_› rfl rfl rfl rfl rfl
    · simp at h
  | expire =>
    simp only [Worker.act] at h
    split at h
    · split_ifs at h
      obtain ⟨rfl, rfl⟩ := Prod.mk.inj (Option.some.inj h)
      exact .abandoned ‹_› rfl rfl rfl rfl rfl
    · simp at h
  | stop =>
    obtain ⟨rfl, rfl⟩ := Prod.mk.inj (Option.some.inj h)
    exact .same rfl rfl rfl rfl rfl
  | cancel =>
    simp only [Worker.act] at h
    split at h
    · split_ifs at h
      obtain ⟨rfl, rfl⟩ := Prod.mk.inj (Option.some.inj h)
      exact .abandoned ‹_› rfl rfl rfl rfl rfl
    · simp at h
  | crash =>
    obtain ⟨rfl, rfl⟩ := Prod.mk.inj (Option.some.inj h)
    exact .crashed rfl rfl rfl rfl rfl

theorem returned_cases {sid : Sid} {a : Option Answer}
    (h : x.returned w sid a = some (x', fx)) : Told w sid a x x' fx := by
  simp only [Worker.returned] at h
  split at h
  · split_ifs at h with hsid
    subst hsid
    simp only [Worker.claimReturned] at h
    split at h
    · split_ifs at h with hreg <;> obtain ⟨rfl, rfl⟩ := Prod.mk.inj (Option.some.inj h)
      · exact .claimed ‹_› rfl hreg rfl rfl
      · exact .unregistered ‹_› rfl hreg rfl rfl
    · obtain ⟨rfl, rfl⟩ := Prod.mk.inj (Option.some.inj h)
      exact .nothing ‹_› rfl rfl rfl
    · rename_i hj hno
      obtain ⟨rfl, rfl⟩ := Prod.mk.inj (Option.some.inj h)
      exact .unclaimed ‹_› hj hno rfl rfl
  · split_ifs at h with hsid
    subst hsid
    simp only [Worker.finishReturned] at h
    split at h
    · rename_i hdone
      obtain ⟨hlive, rfl⟩ : _ = false ∧ a = some .done := by simpa using hdone
      obtain ⟨rfl, rfl⟩ := Prod.mk.inj (Option.some.inj h)
      exact .finished ‹_› rfl hlive rfl (by simp [hlive])
    · rename_i hdone
      obtain ⟨rfl, rfl⟩ := Prod.mk.inj (Option.some.inj h)
      refine .unfinished ‹_› ?_ (fun h => hdone h) rfl rfl
      split <;> simp_all
  · split_ifs at h with hsid
    subst hsid
    simp only [Worker.renewReturned] at h
    split at h
    · obtain ⟨rfl, rfl⟩ := Prod.mk.inj (Option.some.inj h)
      exact .renewed ‹_› rfl rfl rfl
    · rename_i hdone
      obtain ⟨rfl, rfl⟩ := Prod.mk.inj (Option.some.inj h)
      exact .unrenewed ‹_› (fun h => hdone h) rfl rfl
  · simp at h

/-- An answer only changes the phase of the worker. -/
theorem returned_effects {sid : Sid} {a : Option Answer}
    (h : x.returned w sid a = some (x', fx)) :
    fx.opens = none ∧ fx.leaves = none ∧ fx.stream = none ∧ fx.handles = 0 ∧
      ∃ p, x' = { x with phase := p } := by
  simp only [Worker.returned, Worker.claimReturned, Worker.finishReturned, Worker.renewReturned,
    Worker.retain] at h
  split at h
  · split_ifs at h
    split at h
    · split_ifs at h <;> obtain ⟨rfl, rfl⟩ := Prod.mk.inj (Option.some.inj h) <;>
        exact ⟨rfl, rfl, rfl, rfl, _, rfl⟩
    · obtain ⟨rfl, rfl⟩ := Prod.mk.inj (Option.some.inj h)
      exact ⟨rfl, rfl, rfl, rfl, _, rfl⟩
    · obtain ⟨rfl, rfl⟩ := Prod.mk.inj (Option.some.inj h)
      exact ⟨rfl, rfl, rfl, rfl, _, rfl⟩
  · split_ifs at h
    · obtain ⟨rfl, rfl⟩ := Prod.mk.inj (Option.some.inj h)
      exact ⟨rfl, rfl, rfl, rfl, _, rfl⟩
    · split at h <;> obtain ⟨rfl, rfl⟩ := Prod.mk.inj (Option.some.inj h) <;>
        exact ⟨rfl, rfl, rfl, rfl, _, rfl⟩
  · split_ifs at h
    split at h <;> obtain ⟨rfl, rfl⟩ := Prod.mk.inj (Option.some.inj h) <;>
      exact ⟨rfl, rfl, rfl, rfl, _, rfl⟩
  · simp at h

/-! ## Seen from the stream -/

/-- What a step of worker `w` does with the stream. -/
inductive Served (cfg : Config) (s : State) (w : WorkerId) (fx : Effects) : Prop
  | nothing (hs : fx.stream = none)
  | recovered {cursor next : ℕ} {es : List (Redis.Entry Message)} {key : Redis.Key Message WorkerId}
      (h : s.stream.xautoclaim w s.mysql.clock cfg.recoveryIdle cursor 100 = some (es, next, key))
      (hs : fx.stream = some key)
  | read {e : Option (Redis.Entry Message)} {key : Redis.Key Message WorkerId}
      (h : s.stream.xreadgroup w s.mysql.clock = some (e, key)) (hs : fx.stream = some key)
  | acked {n : ℕ} {e : Redis.Entry Message} {j : Option Job} (he : .acked w n e j ∈ fx.events)
      (hs : fx.stream = some (s.stream.xack e.id))

@[simp] theorem handle_stream (e : Redis.Entry Message) :
    (x.handle cfg s w e).2.stream = none := by
  unfold Worker.handle
  split <;> rfl

theorem act_served {a : WorkerAct} (h : x.act cfg s w a = some (x', fx)) : Served cfg s w fx := by
  cases a with
  | loop reachable =>
    simp only [Worker.act] at h
    split at h
    · split_ifs at h
      · obtain ⟨-, rfl⟩ := Prod.mk.inj (Option.some.inj h)
        exact .nothing rfl
      · obtain ⟨-, rfl⟩ := Prod.mk.inj (Option.some.inj h)
        exact .nothing rfl
      · split at h <;> obtain ⟨-, rfl⟩ := Prod.mk.inj (Option.some.inj h)
        · exact .nothing rfl
        · exact .recovered ‹_› rfl
      · obtain ⟨-, rfl⟩ := Prod.mk.inj (Option.some.inj h)
        exact .nothing rfl
    · simp at h
  | recover =>
    simp only [Worker.act] at h
    split at h
    · split at h
      · obtain ⟨-, rfl⟩ := Prod.mk.inj (Option.some.inj h)
        exact .nothing rfl
      · split_ifs at h
        · obtain ⟨-, rfl⟩ := Prod.mk.inj (Option.some.inj h)
          exact .nothing rfl
        · obtain ⟨-, rfl⟩ := Prod.mk.inj (Option.some.inj h)
          exact .nothing (handle_stream _)
    · simp at h
  | read reachable =>
    simp only [Worker.act] at h
    split at h
    · split at h
      · split_ifs at h <;> obtain ⟨-, rfl⟩ := Prod.mk.inj (Option.some.inj h) <;>
          exact .nothing rfl
      · rename_i hread
        obtain ⟨-, hread⟩ : reachable = true ∧ _ := by simpa using hread
        split_ifs at h
        · obtain ⟨-, rfl⟩ := Prod.mk.inj (Option.some.inj h)
          exact .read hread rfl
        · split at h <;> obtain ⟨-, rfl⟩ := Prod.mk.inj (Option.some.inj h)
          · exact .nothing rfl
          · exact .read hread rfl
    · simp at h
  | ack applied =>
    simp only [Worker.act] at h
    split at h
    · obtain ⟨-, rfl⟩ := Prod.mk.inj (Option.some.inj h)
      cases applied with
      | true => exact .acked List.mem_cons_self rfl
      | false => exact .nothing rfl
    · simp at h
  | _ =>
    refine .nothing ?_
    simp only [Worker.act] at h
    grind [Worker.retain, Worker.abandon]

/-! ## Seen from one worker -/

/-- The worker that an event is about. -/
def Event.worker? : Event → Option WorkerId
  | .delivered w _ _ => some w
  | .started w _ _ => some w
  | .returned w _ _ _ => some w
  | .reported w _ _ _ => some w
  | .cancelled w _ => some w
  | .retained w _ => some w
  | .acked w _ _ _ => some w
  | _ => none

theorem Acted.worker (h : Acted s w x x' fx) : ∀ e ∈ fx.events, e.worker? = some w := by
  cases h <;> rename_i he <;> simp_all [Event.worker?]

theorem Told.worker {sid : Sid} {a : Option Answer} (h : Told w sid a x x' fx) :
    ∀ e ∈ fx.events, e.worker? = some w := by
  cases h <;> rename_i he <;> simp_all [Event.worker?]

/-- A call that goes on may answer, and does nothing else. -/
theorem proceed_responds {n c : ℕ} {y y' : Call} {a : Option Answer}
    (h : Call.proceed n c y a = (y', fx)) : ∀ e ∈ fx.events, ∃ r, e = .responded c r := by
  cases proceed_cases h <;> simp

theorem proceed_worker {n c : ℕ} {y y' : Call} {a : Option Answer}
    (h : Call.proceed n c y a = (y', fx)) : ∀ e ∈ fx.events, e.worker? = none := by
  intro e he
  obtain ⟨r, rfl⟩ := proceed_responds h e he
  rfl

theorem proceed_stream {n c : ℕ} {y y' : Call} {a : Option Answer}
    (h : Call.proceed n c y a = (y', fx)) : fx.stream = none := by
  cases proceed_cases h <;> rfl

/-- Answers have nothing to do with the stream. -/
theorem Delivered.stream {sid : Sid} {a : Option Answer} {s' : State} {es : List Event}
    (h : Delivered cfg s sid a s' es) : s'.stream = s.stream := by
  cases h with
  | nobody => rfl
  | @worker _ _ _ fx _ _ hx =>
    show fx.stream.getD s.stream = s.stream
    rw [(returned_effects hx).2.2.1]
    rfl
  | dispatcher => rfl
  | @call _ _ _ fx _ _ _ hp =>
    show fx.stream.getD s.stream = s.stream
    rw [proceed_stream hp]
    rfl

/-- What a step is to worker `w`, which is at `x'` after it. -/
inductive Turn (cfg : Config) (s : State) (w : WorkerId) (x' : Worker) :
    Action → State → List Event → Prop
  /-- The step of another. -/
  | idle {a s' es} (hw : s.workers w = some x') (he : ∀ e ∈ es, e.worker? ≠ some w) :
      Turn cfg s w x' a s' es
  | started {a s'} (hw : s.workers w = none) (hx : x' = .start s.mysql.clock) :
      Turn cfg s w x' a s' []
  | acted {x fx a} (hw : s.workers w = some x) (hx : Acted s w x x' fx) :
      Turn cfg s w x' (.worker w a) ((s.affect cfg fx).setWorker w x') fx.events
  | told {x fx sid how db c s'} (hc : s.mysql.close sid how = some (db, c))
      (hw : s.workers w = some x) (hx : Told w sid (answerOf c) x x' fx) :
      Turn cfg s w x' (.close sid how) s' (.closed sid c :: fx.events)
  | lost {x fx sid s'} (hw : s.workers w = some x) (hx : Told w sid none x x' fx) :
      Turn cfg s w x' (.giveUp sid) s' fx.events

/-- What the delivery of an answer is to worker `w`. -/
theorem Delivered.turn {sid : Sid} {a : Option Answer} {s' : State} {es : List Event}
    (h : Delivered cfg s sid a s' es) (hw : s'.workers w = some x') :
    (s.workers w = some x' ∧ ∀ e ∈ es, e.worker? ≠ some w) ∨
    ∃ x fx, s.workers w = some x ∧ Told w sid a x x' fx ∧ es = fx.events := by
  cases h with
  | nobody => exact .inl ⟨hw, by simp⟩
  | @worker w' x y fx _ hw' hx =>
    by_cases h : w = w'
    · subst h
      obtain rfl : y = x' := by simpa [State.setWorker] using hw
      exact .inr ⟨x, fx, hw', returned_cases hx, rfl⟩
    · refine .inl ⟨by simpa [State.setWorker, State.affect, Function.update_of_ne h] using hw, ?_⟩
      intro e he
      rw [(returned_cases hx).worker e he]
      exact fun hww => h (Option.some.inj hww).symm
  | dispatcher => exact .inl ⟨hw, by simp⟩
  | call _ _ _ hp =>
    exact .inl ⟨hw, fun e he => by simp [proceed_worker hp e he]⟩

theorem Stepped.turn {a : Action} {s' : State} {es : List Event} (h : Stepped cfg s a s' es)
    (hw : s'.workers w = some x') : Turn cfg s w x' a s' es := by
  cases h with
  | advance => exact .idle hw (by simp)
  | exec => exact .idle hw (by simp)
  | close hm hd =>
    rcases hd.turn hw with ⟨hw, he⟩ | ⟨x, fx, hw, hx, rfl⟩
    · exact .idle hw (by simpa [Event.worker?] using he)
    · exact .told hm hw hx
  | @giveUp sid x _ _ _ hd =>
    rcases hd.turn hw with ⟨hw, he⟩ | ⟨x, fx, hw, hx, rfl⟩
    · exact .idle hw he
    · exact .lost hw hx
  | publish => exact .idle hw (by simp [Event.worker?])
  | publishLost => exact .idle hw (by simp)
  | @startWorker w' hnone =>
    by_cases h : w = w'
    · subst h
      exact .started hnone (by simpa [State.setWorker] using hw.symm)
    · exact .idle (by simpa [State.setWorker, Function.update_of_ne h] using hw) (by simp)
  | @worker w' _ x y fx hw' _ hx =>
    by_cases h : w = w'
    · subst h
      obtain rfl : y = x' := by simpa [State.setWorker] using hw
      exact .acted hw' (act_cases hx)
    · refine .idle (by simpa [State.setWorker, State.affect, Function.update_of_ne h] using hw) ?_
      intro e he
      rw [(act_cases hx).worker e he]
      exact fun hww => h (Option.some.inj hww).symm
  | startDispatcher => exact .idle hw (by simp)
  | dispatch => exact .idle hw (by simp)
  | stopDispatcher => exact .idle hw (by simp)
  | crashDispatcher => exact .idle hw (by simp)
  | badKey => exact .idle hw (by simp [Event.worker?])
  | createJob => exact .idle hw (by simp [Event.worker?])
  | requeueJob => exact .idle hw (by simp)
  | inject => exact .idle hw (by simp)
  | dropStream => exact .idle hw (by simp)

theorem Delivered.present {sid : Sid} {a : Option Answer} {s' : State} {es : List Event}
    (h : Delivered cfg s sid a s' es) {e : Event} (he : e ∈ es) (hw : e.worker? = some w) :
    ∃ x', s'.workers w = some x' := by
  cases h with
  | nobody => exact absurd he List.not_mem_nil
  | @worker w' _ x' _ _ _ hx =>
    rw [(returned_cases hx).worker e he] at hw
    obtain rfl := Option.some.inj hw
    exact ⟨x', Function.update_self _ _ _⟩
  | dispatcher => exact absurd he List.not_mem_nil
  | call _ _ _ hp => simp [proceed_worker hp e he] at hw

/-- An event about worker `w` comes of a turn of this worker. -/
theorem Stepped.present {a : Action} {s' : State} {es : List Event} (h : Stepped cfg s a s' es)
    {e : Event} (he : e ∈ es) (hw : e.worker? = some w) : ∃ x', s'.workers w = some x' := by
  cases h with
  | close _ hd =>
    rcases List.mem_cons.1 he with rfl | he
    · cases hw
    · exact hd.present he hw
  | giveUp _ hd => exact hd.present he hw
  | @worker w' _ _ x' _ _ _ hx =>
    rw [(act_cases hx).worker e he] at hw
    obtain rfl := Option.some.inj hw
    exact ⟨x', Function.update_self _ _ _⟩
  | _ => simp_all [Event.worker?]

end

end ScaleQueue
