import ScaleQueue.Scans
import ScaleQueue.Wakeups

/-!
# Recovery sweeps

What one running worker does in successive calls of `recover` (`Recovering`): its
successful XAUTOCLAIMs, and the entries that it hands to `handle`. Between them anything
may happen, to the entries and to other workers; but the worker is not stopped, and no
entry is lost. The scans are those of sweeps, and what they have claimed was handed to
`handle`, apart from the batch in hand (`Recovered`).
-/

namespace ScaleQueue

open Redis (Scan)

/-- The entries that the worker has claimed and not handed to `handle` yet. -/
def Point.batch : Point → List (Redis.Entry Message)
  | .recovering batch => batch
  | _ => []

/-- The entry that an event hands to `handle`. -/
def Event.entry? : Event → Option (Redis.Entry Message)
  | .delivered _ _ e => some e
  | _ => none

/-- The step is neither the loss of the stream nor the end of worker `w`. -/
def Action.Keeps (w : WorkerId) (a : Action) : Prop :=
  a ≠ .dropStream ∧ a ≠ .worker w .stop ∧ a ≠ .worker w .crash

/-- The successful XAUTOCLAIM of worker `w` in a step. -/
def State.scan? (cfg : Config) (w : WorkerId) (s : State) : Action → Option (Scan Message WorkerId)
  | .worker w' (.loop true) =>
    match s.workers w, s.stream.group with
    | some x, some g =>
      if w' = w ∧ x.next ≤ s.mysql.clock then
        (s.stream.xautoclaim w s.mysql.clock cfg.recoveryIdle x.cursor 100).map fun r =>
          ⟨x.cursor, r.2.1, s.mysql.clock, g.pending⟩
      else none
    | _, _ => none
  | _ => none

/-- The entries that worker `w` hands to `handle` in a step of `recover`. -/
def Action.handed (w : WorkerId) (es : List Event) : Action → List (Redis.Entry Message)
  | .worker w' .recover => if w' = w then es.filterMap Event.entry? else []
  | _ => []

/-- A run from `s₀` in which worker `w` is not stopped: its scans, and the entries that
    it has handed to `handle` in `recover`, oldest first. -/
inductive Recovering (cfg : Config) (w : WorkerId) (s₀ : State) :
    List (Scan Message WorkerId) → List (Redis.Entry Message) → State → Prop
  | refl : Recovering cfg w s₀ [] [] s₀
  | step {cs hs s s' a es} (h : Recovering cfg w s₀ cs hs s) (ha : a.Keeps w)
      (hstep : s.step cfg a = some (s', es)) :
      Recovering cfg w s₀ (cs ++ (s.scan? cfg w a).toList) (hs ++ a.handed w es) s'

/-! ## The loop of a worker -/

/-- What a step of worker `w` is to `recover`. -/
inductive Looped (cfg : Config) (s : State) (w : WorkerId) (x : Worker) (a : WorkerAct)
    (x' : Worker) (fx : Effects) : Prop
  | scanned {es next key} (ha : a = .loop true) (hx : x.point = .top)
      (hnext : x.next ≤ s.mysql.clock)
      (hclaim : s.stream.xautoclaim w s.mysql.clock cfg.recoveryIdle x.cursor 100 =
        some (es, next, key))
      (hp : x'.point = .recovering es) (hc : x'.cursor = next) (hs : x'.stopping = x.stopping)
  | handed {e es} (ha : a = .recover) (hx : x.point = .recovering (e :: es))
      (hp : x'.point = .recovering es) (hc : x'.cursor = x.cursor)
      (hs : x'.stopping = x.stopping) (he : fx.events.filterMap Event.entry? = [e])
  | other (hp : x'.point.batch = x.point.batch) (hc : x'.cursor = x.cursor)
      (hs : x'.stopping = x.stopping) (hno : a = .recover → fx.events = [])
      (hfail : a = .loop true → x.next ≤ s.mysql.clock →
        s.stream.xautoclaim w s.mysql.clock cfg.recoveryIdle x.cursor 100 = none)

section Steps

variable {cfg : Config} {s s' : State} {w : WorkerId} {x x' : Worker} {fx : Effects}

theorem handle_entry (e : Redis.Entry Message) :
    (x.handle cfg s w e).1.point = x.point ∧ (x.handle cfg s w e).1.cursor = x.cursor ∧
      (x.handle cfg s w e).1.stopping = x.stopping ∧
      (x.handle cfg s w e).2.events.filterMap Event.entry? = [e] := by
  unfold Worker.handle
  split <;> simp [Event.entry?]

theorem act_looped {a : WorkerAct} (h : x.act cfg s w a = some (x', fx)) (hstop : a ≠ .stop)
    (hlive : x.stopping = false) : Looped cfg s w x a x' fx := by
  cases a with
  | stop => exact absurd rfl hstop
  | loop reachable =>
    simp only [Worker.act] at h
    split at h
    · rename_i hpoint hphase
      rw [if_neg (by simp [hlive])] at h
      split_ifs at h with hnext hreach
      · obtain ⟨rfl, rfl⟩ := Prod.mk.inj (Option.some.inj h)
        refine .other (by simp [Point.batch, hpoint]) rfl rfl (by simp) fun _ hle => ?_
        exact absurd hnext (Nat.not_lt.2 hle)
      · subst hreach
        split at h
        · rename_i hnone
          obtain ⟨rfl, rfl⟩ := Prod.mk.inj (Option.some.inj h)
          exact .other (by simp [Point.batch, hpoint]) rfl rfl (by simp) fun _ _ => hnone
        · rename_i hclaim
          obtain ⟨rfl, rfl⟩ := Prod.mk.inj (Option.some.inj h)
          exact .scanned rfl hpoint (Nat.not_lt.1 hnext) hclaim rfl rfl rfl
      · obtain ⟨rfl, rfl⟩ := Prod.mk.inj (Option.some.inj h)
        exact .other (by simp [Point.batch, hpoint]) rfl rfl (by simp) (by simp_all)
    · cases h
  | recover =>
    simp only [Worker.act] at h
    split at h
    · rename_i hpoint hphase
      split at h
      · obtain ⟨rfl, rfl⟩ := Prod.mk.inj (Option.some.inj h)
        exact .other (by simp [Point.batch, hpoint]) rfl rfl (by simp) (by simp)
      · rename_i e es
        rw [if_neg (by simp [hlive])] at h
        obtain ⟨hp, hc, hs, he⟩ := @handle_entry cfg s w { x with point := .recovering es } e
        rw [Option.some.inj h] at hp hc hs he
        exact .handed rfl hpoint hp hc hs he
    · cases h
  | read reachable =>
    simp only [Worker.act] at h
    split at h
    · rename_i hpoint hphase
      split at h
      · obtain ⟨rfl, rfl⟩ := Prod.mk.inj (Option.some.inj h)
        exact .other (by simp [Point.batch, hpoint, hlive]) (by simp [hlive]) (by simp [hlive])
          (by simp) (by simp)
      · rw [if_neg (by simp [hlive])] at h
        split at h
        · obtain ⟨rfl, rfl⟩ := Prod.mk.inj (Option.some.inj h)
          exact .other (by simp [Point.batch, hpoint]) rfl rfl (by simp) (by simp)
        · rename_i e _
          obtain ⟨hp, hc, hs, -⟩ := @handle_entry cfg s w { x with point := .top } e
          obtain ⟨rfl, rfl⟩ := Prod.mk.inj (Option.some.inj h)
          refine .other ?_ hc hs (by simp) (by simp)
          rw [hp, hpoint]
          rfl
    · cases h
  | _ =>
    suffices hsame : x'.point = x.point ∧ x'.cursor = x.cursor ∧ x'.stopping = x.stopping from
      .other (by rw [hsame.1]) hsame.2.1 hsame.2.2 (by simp) (by simp)
    simp only [Worker.act] at h
    grind [Worker.retain, Worker.abandon]

/-- What becomes of worker `w` in a step: nothing that matters to `recover`, or what its own
    step does. -/
inductive Loops (cfg : Config) (s : State) (w : WorkerId) (x : Worker) (x' : Worker) :
    Action → List Event → Prop
  | own {b fx} (h : Looped cfg s w x b x' fx) : Loops cfg s w x x' (.worker w b) fx.events
  | other {a es} (ha : ∀ b, a ≠ .worker w b) (hp : x'.point = x.point)
      (hc : x'.cursor = x.cursor) (hs : x'.stopping = x.stopping) : Loops cfg s w x x' a es

theorem Delivered.loops {sid : Sid} {b : Option Answer} {es : List Event}
    (h : Delivered cfg s sid b s' es) (hw : s.workers w = some x) :
    ∃ x', s'.workers w = some x' ∧ x'.point = x.point ∧ x'.cursor = x.cursor ∧
      x'.stopping = x.stopping := by
  cases h with
  | @worker w' y y' fx _ hw' hx =>
    by_cases hww : w' = w
    · subst hww
      obtain rfl := Option.some.inj (hw.symm.trans hw')
      obtain ⟨-, -, -, -, p, rfl⟩ := returned_effects hx
      exact ⟨_, Function.update_self .., rfl, rfl, rfl⟩
    · exact ⟨x, (Function.update_of_ne (Ne.symm hww) ..).trans hw, rfl, rfl, rfl⟩
  | _ => exact ⟨x, hw, rfl, rfl, rfl⟩

theorem Stepped.loops {a : Action} {es : List Event} (h : Stepped cfg s a s' es)
    (hw : s.workers w = some x) (ha : a.Keeps w) (hlive : x.stopping = false) :
    ∃ x', s'.workers w = some x' ∧ Loops cfg s w x x' a es := by
  cases h with
  | close _ hd =>
    obtain ⟨x', hx', hp, hc, hs⟩ := hd.loops hw
    exact ⟨x', hx', .other (by simp) hp hc hs⟩
  | @giveUp sid y _ _ _ hd =>
    obtain ⟨x', hx', hp, hc, hs⟩ := hd.loops (s := s.forsake sid y) hw
    exact ⟨x', hx', .other (by simp) hp hc hs⟩
  | @startWorker w' hnone =>
    have hww : w ≠ w' := by
      rintro rfl
      cases hw.symm.trans hnone
    exact ⟨x, (Function.update_of_ne hww ..).trans hw, .other (by simp) rfl rfl rfl⟩
  | @worker w' b y y' fx hw' _ hx =>
    by_cases hww : w' = w
    · subst hww
      obtain rfl := Option.some.inj (hw.symm.trans hw')
      have hstop : b ≠ .stop := fun hb => ha.2.1 (by rw [hb])
      exact ⟨y', Function.update_self .., .own (act_looped hx hstop hlive)⟩
    · exact ⟨x, (Function.update_of_ne (Ne.symm hww) ..).trans hw,
        .other (by simpa using fun h => absurd h hww) rfl rfl rfl⟩
  | _ => exact ⟨x, hw, .other (by simp) rfl rfl rfl⟩

theorem Stepped.ordered {a : Action} {es : List Event} (h : Stepped cfg s a s' es)
    (hord : s.stream.Ordered) : s'.stream.Ordered := by
  cases h with
  | close _ hd => exact hd.stream ▸ hord
  | giveUp _ hd => exact hd.stream ▸ hord
  | publish => exact hord.xadd _
  | startWorker => exact hord.xgroupCreateMkStream
  | @worker w _ _ x' fx _ _ hx =>
    rw [show ((s.affect cfg fx).setWorker w x').stream = fx.stream.getD s.stream from rfl]
    cases act_served hx with
    | nothing hnone => exact hnone ▸ hord
    | recovered hclaim hkey => exact hkey ▸ hord.xautoclaim hclaim
    | read hread hkey => exact hkey ▸ hord.xreadgroup hread
    | acked _ hkey => exact hkey ▸ hord.xack _
  | inject => exact hord.xadd _
  | dropStream => exact hord.del
  | _ => exact hord

theorem Run.ordered {s₀ : State} {es : List Event} (h : Run cfg s₀ es s)
    (h₀ : s₀.stream.Ordered) : s.stream.Ordered := by
  induction h with
  | refl => exact h₀
  | step _ hs ih => exact (step_cases hs).ordered ih

/-! ## Scans -/

/-- How far worker `w` has come: it goes on with the sweep, and has handed what it has
    claimed to `handle`, apart from the batch in hand. -/
structure Recovered (cfg : Config) (w : WorkerId) (cs : List (Scan Message WorkerId))
    (hs : List (Redis.Entry Message)) (s : State) (x : Worker) : Prop where
  here : s.workers w = some x
  live : x.stopping = false
  ordered : s.stream.Ordered
  scans : Redis.Scans cs x.cursor
  handed : hs ++ x.point.batch = cs.flatMap (·.due cfg.recoveryIdle)
  lt_nextId : x.cursor < s.stream.nextId

variable {cs : List (Scan Message WorkerId)} {hs : List (Redis.Entry Message)}

theorem scan?_other {a : Action} (ha : ∀ b, a ≠ .worker w b) : s.scan? cfg w a = none := by
  unfold State.scan?
  split
  · split
    · exact if_neg fun h => ha _ (by rw [h.1])
    · rfl
  · rfl

theorem handed_other {a : Action} {es : List Event} (ha : ∀ b, a ≠ .worker w b) :
    a.handed w es = [] := by
  unfold Action.handed
  split
  · exact if_neg fun h => ha _ (by rw [h])
  · rfl

theorem Recovered.step {a : Action} {es : List Event} (h : Recovered cfg w cs hs s x)
    (ha : a.Keeps w) (hs' : Stepped cfg s a s' es) : ∃ x',
    Recovered cfg w (cs ++ (s.scan? cfg w a).toList) (hs ++ a.handed w es) s' x' ∧
      (s.scan? cfg w a = none → x'.cursor = x.cursor) := by
  have hord := hs'.ordered h.ordered
  have hnext := (hs'.stream h.ordered.toSound).2
  obtain ⟨x', hx', hl⟩ := hs'.loops h.here ha h.live
  refine ⟨x', ?_⟩
  -- Somebody else's step, or one of the worker: a scan, an entry handed on, or another.
  cases hl with
  | @other a es hno hp hc hlive =>
    rw [scan?_other hno, handed_other hno, Option.toList_none, List.append_nil, List.append_nil]
    exact ⟨⟨hx', hlive.trans h.live, hord, hc ▸ h.scans, hp ▸ h.handed,
      hc ▸ h.lt_nextId.trans_le hnext⟩, fun _ => hc⟩
  | @own b fx hl =>
    cases hl with
    | @scanned es next key hb hx hnow hclaim hp hc hlive =>
      subst hb
      obtain ⟨g, hg⟩ : ∃ g, s.stream.group = some g := by
        refine Option.ne_none_iff_exists'.1 fun hnone => ?_
        simp [Redis.Key.xautoclaim, hnone] at hclaim
      have hscan : s.scan? cfg w (.worker w (.loop true)) =
          some ⟨x.cursor, next, s.mysql.clock, g.pending⟩ := by
        simp [State.scan?, h.here, hg, hnow, hclaim]
      obtain ⟨hforward, hes, hlt⟩ := h.ordered.scan hclaim hg (by decide)
      refine ⟨⟨hx', hlive.trans h.live, hord, ?_, ?_, ?_⟩, fun hnone => ?_⟩
      · rw [hscan, hc]
        exact .scan h.scans hforward
      · have hold : hs = cs.flatMap (·.due cfg.recoveryIdle) := by
          simpa [hx, Point.batch] using h.handed
        rw [hscan, hp, List.flatMap_append, ← hold]
        simp [Action.handed, Point.batch, hes]
      · exact hc ▸ hlt.trans_le hnext
      · cases hscan.symm.trans hnone
    | @handed e es hb hx hp hc hlive he =>
      subst hb
      have hold := h.handed
      rw [hx, Point.batch] at hold
      refine ⟨⟨hx', hlive.trans h.live, hord, ?_, ?_, ?_⟩, fun _ => hc⟩
      · simpa [State.scan?, hc] using h.scans
      · simpa [State.scan?, Action.handed, he, hp, Point.batch] using hold
      · exact hc ▸ h.lt_nextId.trans_le hnext
    | other hp hc hlive hno hfail =>
      have hscan : s.scan? cfg w (.worker w b) = none := by
        unfold State.scan?
        split
        · rename_i hb
          obtain ⟨rfl, rfl⟩ := Action.worker.inj hb
          split
          · rename_i y g hy hg
            obtain rfl := Option.some.inj (hy.symm.trans h.here)
            split
            · rename_i hnow
              rw [hfail rfl hnow.2]
              rfl
            · rfl
          · rfl
        · rfl
      have hhanded : (Action.worker w b).handed w fx.events = [] := by
        unfold Action.handed
        split
        · rename_i hb
          obtain ⟨rfl, rfl⟩ := Action.worker.inj hb
          rw [if_pos rfl, hno rfl]
          rfl
        · rfl
      rw [hscan, hhanded, Option.toList_none, List.append_nil, List.append_nil]
      exact ⟨⟨hx', hlive.trans h.live, hord, hc ▸ h.scans, hp ▸ h.handed,
        hc ▸ h.lt_nextId.trans_le hnext⟩, fun _ => hc⟩

theorem Recovering.recovered {s₀ : State} {x₀ : Worker} (h : Recovering cfg w s₀ cs hs s)
    (h₀ : Recovered cfg w [] [] s₀ x₀) : ∃ x, Recovered cfg w cs hs s x := by
  induction h with
  | refl => exact ⟨x₀, h₀⟩
  | step _ ha hstep ih =>
    obtain ⟨x, hx⟩ := ih
    obtain ⟨x', hx', -⟩ := hx.step ha (step_cases hstep)
    exact ⟨x', hx'⟩

end Steps

/-- From a state in which the cursor of worker `w` is `0` and nothing is left to hand to
    `handle`, as long as `w` is not stopped and the stream not lost: each successful
    XAUTOCLAIM moves the cursor forward or to the end, of which the latter comes after at
    most as many as there are ids; in every other step, a failing XAUTOCLAIM among them, the
    cursor stays. Until the sweep is at its end, the entries handed to `handle` are entries
    that were idle for long enough when they were scanned, each once and in the order of
    their ids; and then each id was passed by one scan, and handed to `handle` if it was
    pending and idle for long enough at that time. -/
theorem recovery_sweeps {cfg : Config} {w : WorkerId} {s₀ s : State} {x₀ : Worker}
    {cs : List (Scan Message WorkerId)} {hs : List (Redis.Entry Message)}
    (hord : s₀.stream.Ordered) (hw : s₀.workers w = some x₀) (hcursor : x₀.cursor = 0)
    (hbatch : x₀.point.batch = []) (hlive : x₀.stopping = false)
    (h : Recovering cfg w s₀ cs hs s) : ∃ x, s.workers w = some x ∧
    Redis.Scans cs x.cursor ∧
    ((∀ c ∈ cs, c.next ≠ 0) → cs.length < s.stream.nextId) ∧
    (∀ a s' es, a.Keeps w → s.step cfg a = some (s', es) → s.scan? cfg w a = none →
      ∃ x', s'.workers w = some x' ∧ x'.cursor = x.cursor) ∧
    ((∀ c ∈ cs.dropLast, c.next ≠ 0) →
      (hs.map (·.id)).Pairwise (· < ·) ∧
      (∀ e ∈ hs, ∃ c ∈ cs, ∃ p ∈ c.pending, p.entry = e ∧ c.Covers e.id ∧
        p.delivered + cfg.recoveryIdle ≤ c.now) ∧
      (cs ≠ [] → x.cursor = 0 → x.point.batch = [] → ∀ id, ∃ before c after,
        cs = before ++ c :: after ∧ c.Covers id ∧ (∀ c' ∈ before ++ after, ¬ c'.Covers id) ∧
        ∀ p ∈ c.pending, p.entry.id = id → p.delivered + cfg.recoveryIdle ≤ c.now →
          p.entry ∈ hs)) := by
  obtain ⟨x, hx⟩ := h.recovered
    ⟨hw, hlive, hord, hcursor ▸ .start, by simp [hbatch], hcursor ▸ hord.nextId_pos⟩
  refine ⟨x, hx.here, hx.scans, fun hopen => ?_, fun a s' es ha hstep hnone => ?_, fun hopen => ?_⟩
  -- The cursor advances with each scan, and stays below the next id.
  · obtain rfl | ⟨c, hc, heq⟩ := hx.scans.last
    · exact hx.ordered.nextId_pos
    · have hsweep := hx.scans.sweep fun c hc => hopen c (List.dropLast_subset _ hc)
      exact (hsweep.length_le (heq ▸ hopen c hc)).trans_lt hx.lt_nextId
  · obtain ⟨x', hx', hc⟩ := hx.step ha (step_cases hstep)
    exact ⟨x', hx'.here, hc hnone⟩
  · have hsweep := hx.scans.sweep hopen
    have hdue := (hsweep.due_sorted cfg.recoveryIdle).1
    rw [← hx.handed, List.map_append] at hdue
    refine ⟨(List.pairwise_append.1 hdue).1, fun e he => ?_, fun hne hend hbatch' id => ?_⟩
    · have hmem : e ∈ cs.flatMap (·.due cfg.recoveryIdle) :=
        hx.handed ▸ List.mem_append_left _ he
      obtain ⟨c, hc, he⟩ := List.mem_flatMap.1 hmem
      exact ⟨c, hc, Scan.mem_due.1 he⟩
    -- The sweep is complete, and nothing that it found is left to be handed on.
    · obtain ⟨before, c, after, heq, hcov, hno⟩ := (hsweep.covers id).1 hne (.inl hend)
      refine ⟨before, c, after, heq, hcov, hno, fun p hp hid hidle => ?_⟩
      have hall := hx.handed
      rw [hbatch', List.append_nil] at hall
      rw [hall]
      refine List.mem_flatMap.2 ⟨c, by simp [heq], Scan.mem_due.2 ⟨p, hp, rfl, ?_, hidle⟩⟩
      rwa [hid]

/-- None of the actions loses the stream or ends worker `w`. -/
def Action.keeps (w : WorkerId) : Action → Bool
  | .dropStream => false
  | .worker w' .stop => w' ≠ w
  | .worker w' .crash => w' ≠ w
  | _ => true

theorem Action.keeps_of {w : WorkerId} {a : Action} (h : a.keeps w = true) : a.Keeps w := by
  refine ⟨?_, ?_, ?_⟩ <;> rintro rfl <;> simp [Action.keeps] at h

/-- The scans of worker `w` and what it hands to `handle`, in the actions that can be made. -/
def State.sweep (cfg : Config) (w : WorkerId) :
    State → List Action → List (Scan Message WorkerId) × List (Redis.Entry Message)
  | _, [] => ([], [])
  | s, a :: acts =>
    match s.step cfg a with
    | none => s.sweep cfg w acts
    | some (s', es) =>
      ((s.scan? cfg w a).toList ++ (s'.sweep cfg w acts).1,
        a.handed w es ++ (s'.sweep cfg w acts).2)

theorem Recovering.play {cfg : Config} {w : WorkerId} {s₀ s : State}
    {cs : List (Scan Message WorkerId)} {hs : List (Redis.Entry Message)}
    (h : Recovering cfg w s₀ cs hs s) (acts : List Action)
    (hacts : acts.all (·.keeps w) = true) :
    Recovering cfg w s₀ (cs ++ (s.sweep cfg w acts).1) (hs ++ (s.sweep cfg w acts).2)
      (s.play cfg acts).1 := by
  induction acts generalizing s cs hs with
  | nil => simpa [State.play, State.sweep] using h
  | cons a acts ih =>
    obtain ⟨ha, hrest⟩ : a.keeps w = true ∧ acts.all (·.keeps w) = true := by simpa using hacts
    cases hs' : s.step cfg a with
    | none =>
      simp only [State.play, State.sweep, hs']
      exact ih h hrest
    | some x =>
      simp only [State.play, State.sweep, hs']
      rw [← List.append_assoc, ← List.append_assoc]
      exact ih (h.step (Action.keeps_of ha) hs') hrest

theorem fresh_ordered : State.fresh.stream.Ordered where
  nextId_pos := Nat.one_pos
  holds_lt e he := by
    obtain ⟨_, hs, -⟩ := he
    cases hs
  last_lt g hg := by cases hg
  sorted g hg := by cases hg
  id_pos g hg := by cases hg
  id_le g hg := by cases hg

/-- `101` malformed messages are delivered to a worker that crashes, and another one starts. -/
def littering : List Action :=
  .startWorker "w" :: List.replicate 101 (.inject ⟨none, none⟩) ++
    (List.replicate 101 [.worker "w" (.loop true), .worker "w" .recover,
      .worker "w" (.read true)]).flatten ++ [.worker "w" .crash, .startWorker "v"]

/-- The state after that. -/
def littered : State := (State.after littering).1

/-- A sweep over `101` malformed messages, in two scans. -/
def firstSweep : List Action :=
  [.advance 30000000, .worker "v" (.loop true)] ++ List.replicate 101 (.worker "v" .recover) ++
    [.worker "v" (.read false), .advance 30000000, .worker "v" (.loop true), .worker "v" .recover]

/-- The first scan leaves the cursor at the last message, and each message is handed to
    `handle` once, which retains it. -/
theorem recovery_sweeps_first : ∃ cs hs s, Recovering (.defaults id) "v" littered cs hs s ∧
    cs.map (·.next) = [101, 0] ∧ (hs.map (·.id)).Pairwise (· < ·) ∧ hs.length = 101 ∧
    ∀ id, ∃ before c after, cs = before ++ c :: after ∧ c.Covers id ∧
      ∀ c' ∈ before ++ after, ¬ c'.Covers id := by
  have hord : littered.stream.Ordered := by
    rw [littered, State.after]
    exact (Run.play (.defaults id) State.fresh littering).ordered fresh_ordered
  have hstart : (littered.workers "v").map (fun x => (x.cursor, x.point.batch.length, x.stopping)) =
      some (0, 0, false) := by decide +kernel
  have h : Recovering (.defaults id) "v" littered _ _ _ :=
    Recovering.refl.play firstSweep (by decide +kernel)
  rw [List.nil_append, List.nil_append] at h
  have hnext : (littered.sweep (.defaults id) "v" firstSweep).1.map (·.next) = [101, 0] := by
    decide +kernel
  have hlength : (littered.sweep (.defaults id) "v" firstSweep).2.length = 101 := by
    decide +kernel
  have hend : ((littered.play (.defaults id) firstSweep).1.workers "v").map
      (fun x => (x.cursor, x.point.batch.length)) = some (0, 0) := by decide +kernel
  generalize littered.sweep (.defaults id) "v" firstSweep = swept at h hnext hlength
  generalize (littered.play (.defaults id) firstSweep).1 = s at h hend
  obtain ⟨cs, hs⟩ := swept
  obtain ⟨x₀, hx₀, heq⟩ := Option.map_eq_some_iff.1 hstart
  rw [Prod.mk.injEq, Prod.mk.injEq, List.length_eq_zero_iff] at heq
  obtain ⟨x, hx, -, -, -, hsweep⟩ := recovery_sweeps hord hx₀ heq.1 heq.2.1 heq.2.2 h
  rw [hx, Option.map_some, Option.some.injEq, Prod.mk.injEq, List.length_eq_zero_iff] at hend
  obtain ⟨c, c', rfl⟩ : ∃ c c', cs = [c, c'] := by
    have := congrArg List.length hnext
    rw [List.length_map] at this
    exact List.length_eq_two.1 this
  have hopen : ∀ b ∈ [c, c'].dropLast, b.next ≠ 0 := by
    rintro b hb
    obtain rfl : b = c := by simpa using hb
    have : b.next = 101 := (List.cons.inj hnext).1
    omega
  obtain ⟨hsorted, -, hcovers⟩ := hsweep hopen
  refine ⟨_, hs, s, h, hnext, hsorted, hlength, fun id => ?_⟩
  obtain ⟨before, b, after, heq, hb, hno, -⟩ := hcovers (by simp) hend.1 hend.2 id
  exact ⟨before, b, after, heq, hb, hno⟩

end ScaleQueue
