import ScaleQueue.Change

/-!
# The life of a job

In every run of the system, what the tables say about a job changes only by the
changes of `Change`, one after the other, each as if it happened at one moment:
`Run.life`. The rest of the system (the order of statements, failures, lost
sessions, deliveries) is then only seen through the history of the job, the
transactions that committed on it. What holds of every life holds of every job
in every reachable state.
-/

namespace ScaleQueue

open Locking

/-- What the abstract state of a job goes through from `v₀` at time `t₀`: the
    transactions that committed on it, oldest first, its state and the time. -/
inductive Life (lease : ℕ) (id : JobId) (v₀ : JobView) (t₀ : ℕ) :
    List (Op × Answer) → JobView → ℕ → Prop
  | start : Life lease id v₀ t₀ [] v₀ t₀
  | wait {h v t t'} : Life lease id v₀ t₀ h v t → t ≤ t' → Life lease id v₀ t₀ h v t'
  | change {h v v' t lo hi op a} : Life lease id v₀ t₀ h v t →
      Change lease id lo hi op a v v' → hi.now ≤ t → Life lease id v₀ t₀ (h ++ [(op, a)]) v' t

/-- The sessions closed in the events. -/
def closings (es : List Event) : List (Sid × Closed Answer Op) :=
  es.filterMap fun | .closed sid c => some (sid, c) | _ => none

@[simp] theorem closings_nil : closings [] = [] := rfl

@[simp] theorem closings_append (es es' : List Event) :
    closings (es ++ es') = closings es ++ closings es' := List.filterMap_append

theorem mem_closings {es : List Event} {sid : Sid} {c : Closed Answer Op} :
    (sid, c) ∈ closings es ↔ .closed sid c ∈ es := by
  simp only [closings, List.mem_filterMap]
  constructor
  · rintro ⟨e, he, h⟩
    cases e <;> simp_all
  · exact fun h => ⟨_, h, rfl⟩

/-- The transaction about the job, if the session committed one. -/
def committed? (id : JobId) : Sid × Closed Answer Op → Option (Op × Answer)
  | (_, .committed op a) => if about op a = some id then some (op, a) else none
  | _ => none

/-- The transactions that committed on a job, oldest first. -/
def history (id : JobId) (cs : List (Sid × Closed Answer Op)) : List (Op × Answer) :=
  cs.filterMap (committed? id)

@[simp] theorem history_nil (id : JobId) : history id [] = [] := rfl

@[simp] theorem history_append (id : JobId) (cs cs' : List (Sid × Closed Answer Op)) :
    history id (cs ++ cs') = history id cs ++ history id cs' := List.filterMap_append

theorem Change.about_eq {lease : ℕ} {id : JobId} {lo hi : Env} {op : Op} {a : Answer}
    {v v' : JobView} (h : Change lease id lo hi op a v v')
    (hout : ∀ o ∈ v.outbox, o.place.jobId = id) : about op a = some id := by
  cases h with
  | claimed => rfl
  | exhausted => rfl
  | renewed _ hj => rw [← hj]; rfl
  | finished _ hj => rw [← hj]; rfl
  | retried _ hj => rw [← hj]; rfl
  | published ho => rw [← hout _ ho]; rfl
  | dropped ho => rw [← hout _ ho]; rfl
  | created hj => rw [← hj]; rfl
  | requeued => rfl

/-! ## What the database keeps -/

/-- The reachable states of the database: sessions are isolated, the tables are
    sound, and the log has only ids that were drawn. -/
structure Kept (cfg : Config) (m : MySQL) : Prop where
  isolated : Server.Isolated (·.script cfg) (fun _ => Looks) Logged m
  sound : ∀ id, (m.store.view id).Sound
  logged : ∀ id, ∀ l ∈ (m.store.view id).logs, l.id < m.serial

theorem sound_some {r : JobRow} {logs : List LogRow} {out : List OutboxRow} :
    JobView.Sound ⟨some r, logs, out⟩ ↔ 1 ≤ r.generation ∧ r.generation ≤ maxInt ∧
      ∀ o ∈ out, o.place.generation ≤ r.generation :=
  ⟨fun h => ⟨h.one_le r rfl, h.le_maxInt r rfl, h.generation_le r rfl⟩,
    fun ⟨h₁, h₂, h₃⟩ => ⟨by simp, by simpa using h₁, by simpa using h₂, by simpa using h₃⟩⟩

theorem Change.sound {lease : ℕ} {id : JobId} {lo hi : Env} {op : Op} {a : Answer}
    {v v' : JobView} (h : Change lease id lo hi op a v v') (hv : v.Sound) : v'.Sound := by
  have keep {r r' : JobRow} {logs logs' : List LogRow} {out : List OutboxRow}
      (hr : JobView.Sound ⟨some r, logs, out⟩) (hg : r'.generation = r.generation) :
      JobView.Sound ⟨some r', logs', out⟩ := by
    rw [sound_some] at hr ⊢
    rwa [hg]
  cases h with
  | claimed => exact keep hv rfl
  | exhausted => exact keep hv rfl
  | renewed => exact keep hv rfl
  | finished => exact keep hv rfl
  | retried =>
    obtain ⟨h₁, h₂, h₃⟩ := sound_some.1 hv
    refine sound_some.2 ⟨h₁, h₂, fun o ho => ?_⟩
    rcases List.mem_append.1 ho with ho | ho
    · exact h₃ o ho
    · obtain rfl := List.mem_singleton.1 ho
      exact le_rfl
  | @published o row logs out =>
    cases row with
    | none => exact absurd (hv.absent rfl).2 (List.ne_nil_of_mem ‹_›)
    | some r =>
      obtain ⟨h₁, h₂, h₃⟩ := sound_some.1 hv
      refine sound_some.2 ⟨h₁, h₂, fun q hq => ?_⟩
      obtain ⟨o, ho, rfl⟩ := List.mem_map.1 hq
      rw [OutboxRow.mark_place]
      exact h₃ o ho
  | dropped =>
    obtain ⟨h₁, h₂, h₃⟩ := sound_some.1 hv
    exact sound_some.2 ⟨h₁, h₂, fun q hq => h₃ q (List.mem_filter.1 hq).1⟩
  | created =>
    obtain ⟨-, rfl⟩ := hv.absent rfl
    exact sound_some.2 ⟨Nat.le_refl 1, show 1 ≤ maxInt by decide, by simp [NewJob.row]⟩
  | requeued _ _ hmax =>
    obtain ⟨h₁, h₂, h₃⟩ := sound_some.1 hv
    refine sound_some.2 ⟨Nat.le_add_left _ _, hmax, fun o ho => ?_⟩
    rcases List.mem_append.1 ho with ho | ho
    · exact Nat.le_succ_of_le (h₃ o ho)
    · obtain rfl := List.mem_singleton.1 ho
      exact le_rfl

theorem ownedBy_iff {j : Job} {now : ℕ} {r : JobRow} :
    r.ownedBy j now = true ↔ r.generation = j.generation ∧ r.status = .processing ∧
      r.leaseOwner = some j.leaseOwner ∧ ∃ u, r.leaseUntil = some u ∧ now < u := by
  simp only [JobRow.ownedBy, JobRow.active, Bool.and_eq_true, decide_eq_true_eq, and_assoc]
  cases r.leaseUntil <;> simp

theorem not_terminal_of_processing {r : JobRow} (h : r.status = .processing) : ¬ r.terminal := by
  simp [JobRow.terminal, h]

theorem Change.ages {lease : ℕ} {id : JobId} {lo hi : Env} {op : Op} {a : Answer}
    {v v' : JobView} (h : Change lease id lo hi op a v v') : Ages v.row v'.row := by
  have ages {r r' : JobRow} (h : r.Precedes r') : Ages (some r) (some r') :=
    fun q hq => ⟨r', rfl, by cases hq; exact h⟩
  have live {r : JobRow} {j : Job} {t : ℕ} (hr : r.ownedBy j t = true) : ¬ r.terminal :=
    not_terminal_of_processing (ownedBy_iff.1 hr).2.1
  cases h with
  | claimed _ hr => exact ages ⟨rfl, rfl, .inr ⟨rfl, fun ht => absurd ht hr.live⟩⟩
  | exhausted _ hr => exact ages ⟨rfl, rfl, .inr ⟨rfl, fun ht => absurd ht hr.live⟩⟩
  | renewed => exact ages ⟨rfl, rfl, .inr ⟨rfl, fun ht => ht⟩⟩
  | finished _ _ _ hr => exact ages ⟨rfl, rfl, .inr ⟨rfl, fun ht => absurd ht (live hr)⟩⟩
  | retried _ _ hr => exact ages ⟨rfl, rfl, .inr ⟨rfl, fun ht => absurd ht (live hr)⟩⟩
  | published => exact .refl _
  | dropped => exact .refl _
  | created => exact fun r hr => absurd hr (by simp)
  | requeued => exact ages ⟨rfl, rfl, .inl (Nat.lt_succ_self _)⟩

/-- What the tables say about a job is about that job. -/
theorem outboxOf_jobId {t : Tables} {id : JobId} : ∀ o ∈ (t.view id).outbox, o.place.jobId = id :=
  fun _ ho => (t.mem_outboxOf.1 ho).2

section Steps

variable {cfg : Config} {m m' : MySQL}

/-- A commit, as a change of what the tables say about one job. -/
theorem Kept.commit (h : Kept cfg m) {sid : Sid} {how : Closing} {op : Op} {a : Answer}
    (hx : m.close sid how = some (m', .committed op a)) :
    (m'.store = m.store ∧ about op a = none ∧
      ∃ v, Past v m.store ∧ a = .row (op.reads v)) ∨ ∃ id lo hi,
      Change cfg.lease id lo hi op a (m.store.view id) (m'.store.view id) ∧
      (∀ id' ≠ id, m'.store.view id' = m.store.view id') ∧
      hi.now ≤ m.clock ∧ hi.serial ≤ m.serial ∧
      ∃ y, m.sessions sid = some y ∧ y.op = op ∧ lo.now = y.began := by
  obtain ⟨y, b, hy, hop, hrun, hend, hstore, hnow, hserial⟩ := h.isolated.commit hx
  cases exec_outcome hrun (by rw [hend]; trivial) with
  | changed id hend' _ hchange hothers =>
    obtain rfl := Script.commit.inj (hend.symm.trans hend')
    rw [← hstore] at hchange hothers
    exact .inr ⟨id, _, _, hchange, hothers, hnow, hserial, y, hy, hop, rfl⟩
  | read hop hpast hend' hw =>
    obtain rfl := Script.commit.inj (hend.symm.trans hend')
    exact .inl ⟨by rw [hstore, hw, applyAll_nil], hop _, _, hpast, rfl⟩
  | refused hend' => exact absurd (hend.symm.trans hend') (by simp)

/-- A commit that is about a job changes what the tables say about it. -/
theorem Kept.changes (h : Kept cfg m) {sid : Sid} {how : Closing} {op : Op} {a : Answer}
    {id : JobId} (hx : m.close sid how = some (m', .committed op a)) (hid : about op a = some id) :
    ∃ lo hi, Change cfg.lease id lo hi op a (m.store.view id) (m'.store.view id) ∧
      hi.now ≤ m.clock ∧ ∃ y, m.sessions sid = some y ∧ lo.now = y.began := by
  rcases h.commit hx with ⟨-, habout, -⟩ | ⟨id', lo, hi, hchange, -, hhi, -, y, hy, -, hlo⟩
  · exact absurd (hid.symm.trans habout) (by simp)
  · have habout : about op a = some id' := hchange.about_eq outboxOf_jobId
    obtain rfl := Option.some.inj (hid.symm.trans habout)
    exact ⟨lo, hi, hchange, hhi, y, hy, hlo⟩

/-- What does not commit on a job leaves the tables alone. -/
theorem Kept.quiet (h : Kept cfg m) {sid : Sid} {how : Closing} {c : Closed Answer Op}
    (hc : m.close sid how = some (m', c))
    (hno : ∀ op a, c = .committed op a → about op a = none) : m'.store = m.store := by
  obtain ⟨x, hx, ⟨a, -, rfl, -⟩ | ⟨a, -, -, rfl⟩ | ⟨-, rfl⟩⟩ := Server.close_cases hc
  · rcases h.commit hc with ⟨hsame, -⟩ | ⟨id, lo, hi, hchange, -⟩
    · exact hsame
    · have habout : about x.op a = some id := hchange.about_eq outboxOf_jobId
      exact absurd ((hno _ _ rfl).symm.trans habout) (by simp)
  · rfl
  · rfl

/-- An aborted transaction has left the tables alone, and had a reason to. -/
theorem Kept.abort (h : Kept cfg m) {sid : Sid} {how : Closing} {op : Op} {a : Answer}
    (hx : m.close sid how = some (m', .aborted op a)) :
    m'.store = m.store ∧ ∃ x hi, m.sessions sid = some x ∧ x.op = op ∧
      Refused cfg.lease m.store ⟨x.began, 0⟩ hi op a ∧ hi.now ≤ m.clock := by
  obtain ⟨x, b, hsid, hop, hrun, hend, hnow⟩ := h.isolated.abort hx
  have hstore : m'.store = m.store := by
    obtain ⟨_, _, ⟨_, _, hc, _⟩ | ⟨_, _, _, rfl⟩ | ⟨hc, _⟩⟩ := Server.close_cases hx
    · cases hc
    · rfl
    · cases hc
  refine ⟨hstore, ?_⟩
  cases exec_outcome hrun (by rw [hend]; trivial) with
  | changed _ hend' => exact absurd (hend.symm.trans hend') (by simp)
  | read _ _ hend' => exact absurd (hend.symm.trans hend') (by simp)
  | refused hend' hwhy =>
    obtain rfl := Script.abort.inj (hend.symm.trans hend')
    exact ⟨x, _, hsid, hop, hwhy, hnow⟩

/-- A transaction that is about one job changes what the tables say about it, is refused,
    or fails. -/
theorem Kept.ends (h : Kept cfg m) {sid : Sid} {how : Closing} {c : Closed Answer Op}
    {y : Session Tables Key Write OutboxRow Answer Op} {op : Op} {id : JobId}
    (hc : m.close sid how = some (m', c)) (hy : m.sessions sid = some y) (hop : y.op = op)
    (hid : ∀ a, about op a = some id) :
    (∃ a lo hi, c = .committed op a ∧
        Change cfg.lease id lo hi op a (m.store.view id) (m'.store.view id) ∧
        hi.now ≤ m.clock ∧ lo.now = y.began) ∨
      (∃ a hi, c = .aborted op a ∧ m'.store = m.store ∧
        Refused cfg.lease m.store ⟨y.began, 0⟩ hi op a ∧ hi.now ≤ m.clock) ∨
      (c = .failed op ∧ m'.store = m.store ∧ how = .fail) := by
  subst hop
  obtain ⟨x, hx, hcase⟩ := Server.close_cases hc
  obtain rfl := Option.some.inj (hy.symm.trans hx)
  rcases hcase with ⟨a, -, rfl, -⟩ | ⟨a, -, rfl, -⟩ | ⟨rfl, rfl⟩
  · obtain ⟨lo, hi, hchange, hhi, y', hy', hlo⟩ := h.changes hc (hid a)
    obtain rfl := Option.some.inj (hy.symm.trans hy')
    exact .inl ⟨a, lo, hi, rfl, hchange, hhi, hlo⟩
  · obtain ⟨hstore, y', hi, hy', -, hwhy, hhi⟩ := h.abort hc
    obtain rfl := Option.some.inj (hy.symm.trans hy')
    exact .inr (.inl ⟨a, hi, rfl, hstore, hwhy, hhi⟩)
  · exact .inr (.inr ⟨rfl, rfl, Server.close_failed hc⟩)

/-- A transaction that is about to commit holds the job it is about. -/
theorem Kept.locked (h : Kept cfg m) {sid : Sid} {x : Session Tables Key Write OutboxRow Answer Op}
    {id : JobId} {a : Answer} (hx : m.sessions sid = some x) (hr : x.rest = .commit a)
    (hop : x.op ≠ .dispatch) (hid : about x.op a = some id) :
    m.locks (.job id) = some sid := by
  obtain ⟨n, H, hrun, -, -, hl⟩ := h.isolated.runs sid x hx
  cases exec_outcome hrun (by rw [hr]; trivial) with
  | changed id' hend hlock hchange =>
    obtain rfl := Script.commit.inj (hr.symm.trans hend)
    have : about x.op a = some id' := hchange.about_eq outboxOf_jobId
    obtain rfl := Option.some.inj (hid.symm.trans this)
    exact hl _ (hlock.resolve_left hop)
  | read habout => simp [habout] at hid
  | refused hend => exact absurd (hr.symm.trans hend) (by simp)

theorem Change.logs_cases {lease : ℕ} {id : JobId} {lo hi : Env} {op : Op} {a : Answer}
    {v v' : JobView} (h : Change lease id lo hi op a v v') :
    v'.logs = v.logs ∨ ∃ l, v'.logs = v.logs ++ [l] ∧ NewLog l.id v.logs hi := by
  cases h with
  | renewed => exact .inl rfl
  | published => exact .inl rfl
  | dropped => exact .inl rfl
  | claimed => exact .inr ⟨_, rfl, ‹_›⟩
  | exhausted => exact .inr ⟨_, rfl, ‹_›⟩
  | finished => exact .inr ⟨_, rfl, ‹_›⟩
  | retried => exact .inr ⟨_, rfl, ‹_›⟩
  | created => exact .inr ⟨_, rfl, ‹_›⟩
  | requeued => exact .inr ⟨_, rfl, ‹_›⟩

theorem Kept.past (h : Kept cfg m) : Past m.store m.store := ⟨h.sound, fun _ => .refl _⟩

theorem Kept.logged_at (h : Kept cfg m) (now : ℕ) (k : Key) :
    Logged ⟨now, m.serial⟩ k m.store := by
  cases k with
  | job id => exact h.logged id
  | _ => trivial

theorem Kept.step (h : Kept cfg m) {c : Option (Sid × Closed Answer Op)}
    (hs : Server.Step (·.script cfg) m c m') : Kept cfg m' := by
  have hserial := hs.clock_le.2
  have isolated (hR : ∀ v, Past v m.store → Past v m'.store) :=
    h.isolated.step (Op.script_obeys cfg) (fun _ _ _ _ => Logged.congr) hs
      (fun _ _ _ => h.past) h.logged_at fun _ _ v _ => hR v
  by_cases hc : ∃ sid op a, c = some (sid, .committed op a)
  swap
  · have hstore := hs.store_eq fun sid op a hc' => hc ⟨sid, op, a, hc'⟩
    refine ⟨isolated fun v hv => hstore ▸ hv, fun id => hstore ▸ h.sound id, fun id l hl => ?_⟩
    exact Nat.lt_of_lt_of_le (h.logged id l (hstore ▸ hl)) hserial
  obtain ⟨sid, op, a, rfl⟩ := hc
  cases hs with
  | close _ _ hx =>
    rcases h.commit hx with ⟨hstore, -, -⟩ | ⟨id, lo, hi, hchange, hothers, -, hhi, -⟩
    · refine ⟨isolated fun v hv => hstore ▸ hv, fun id => hstore ▸ h.sound id, fun id l hl => ?_⟩
      exact Nat.lt_of_lt_of_le (h.logged id l (hstore ▸ hl)) hserial
    · refine ⟨isolated fun v hv => ⟨hv.1, fun id' => ?_⟩, fun id' => ?_, fun id' => ?_⟩
      · refine (hv.2 id').trans ?_
        by_cases hid : id' = id
        · exact hid ▸ hchange.ages
        · have := congrArg JobView.row (hothers id' hid)
          rw [Tables.view_row, Tables.view_row] at this
          exact this ▸ .refl _
      · by_cases hid : id' = id
        · exact hid ▸ hchange.sound (hid ▸ h.sound id)
        · exact hothers id' hid ▸ h.sound id'
      · intro l hl
        refine Nat.lt_of_lt_of_le ?_ hserial
        by_cases hid : id' = id
        · subst hid
          rcases hchange.logs_cases with heq | ⟨l', heq, -, hl'⟩
          · exact h.logged _ l (heq ▸ hl)
          · rw [heq] at hl
            rcases List.mem_append.1 hl with hl | hl
            · exact h.logged _ l hl
            · obtain rfl := List.mem_singleton.1 hl
              exact Nat.lt_of_lt_of_le hl' hhi
        · exact h.logged id' l (hothers id' hid ▸ hl)

/-- What commits in a run of the database is the life of each job. -/
theorem Kept.life (h : Kept cfg m) {cs : List (Sid × Closed Answer Op)}
    (hs : Server.Steps (·.script cfg) m cs m') : Kept cfg m' ∧ ∀ id,
      Life cfg.lease id (m.store.view id) m.clock (history id cs) (m'.store.view id) m'.clock := by
  induction hs with
  | refl => exact ⟨h, fun id => .start⟩
  | @tail m₁ m₂ cs c hs hstep ih =>
    obtain ⟨hk, hlife⟩ := ih
    refine ⟨hk.step hstep, fun id => ?_⟩
    rw [history_append]
    have hclock := hstep.clock_le.1
    by_cases hc : ∃ sid op a, c = some (sid, .committed op a)
    swap
    · have hstore := hstep.store_eq fun sid op a hc' => hc ⟨sid, op, a, hc'⟩
      have hnone : history id c.toList = [] := by
        rcases c with _ | ⟨sid, c⟩
        · rfl
        · cases c with
          | committed op a => exact absurd ⟨sid, op, a, rfl⟩ hc
          | _ => rfl
      rw [hnone, List.append_nil, hstore]
      exact (hlife id).wait hclock
    obtain ⟨sid, op, a, rfl⟩ := hc
    have hhist : history id (Option.toList (some (sid, Closed.committed op a))) =
        if about op a = some id then [(op, a)] else [] := by
      by_cases ha : about op a = some id <;> simp [history, committed?, ha]
    rw [hhist]
    cases hstep with
    | close _ _ hx =>
      rcases hk.commit hx with ⟨hstore, habout, -⟩ | ⟨id', lo, hi, hchange, hothers, hnow, -⟩
      · rw [habout, if_neg (by simp), List.append_nil, hstore]
        exact (hlife id).wait hclock
      · rw [hchange.about_eq outboxOf_jobId]
        split
        · obtain rfl : id' = id := by simp_all
          exact ((hlife id').change hchange hnow).wait hclock
        · rw [hothers id (by rintro rfl; simp_all), List.append_nil]
          exact (hlife id).wait hclock

end Steps

/-! ## Runs of the system -/

section Runs

variable {cfg : Config} {s s' : State}

theorem act_closings {w : WorkerId} {x x' : Worker} {a : WorkerAct} {fx : Effects}
    (h : x.act cfg s w a = some (x', fx)) : closings fx.events = [] := by
  cases act_cases h <;> rename_i he <;> simp_all [closings]

theorem returned_closings {w : WorkerId} {x x' : Worker} {sid : Sid} {a : Option Answer}
    {fx : Effects} (h : x.returned w sid a = some (x', fx)) : closings fx.events = [] := by
  cases returned_cases h <;> simp_all [closings]

theorem proceed_closings {n c : ℕ} {x x' : Call} {a : Option Answer} {fx : Effects}
    (h : Call.proceed n c x a = (x', fx)) : closings fx.events = [] := by
  cases proceed_cases h <;> rfl

theorem affect_steps (cfg : Config) (s : State) (fx : Effects) :
    Server.Steps (·.script cfg) s.mysql [] (s.affect cfg fx).mysql := by
  have hleave : Server.Steps (·.script cfg) s.mysql [] (s.leave fx.leaves) := by
    cases fx.leaves with
    | none => exact .refl
    | some sid => exact (Server.Step.leave sid).steps
  cases hopens : fx.opens with
  | none => simpa [State.affect, hopens] using hleave
  | some o => simpa [State.affect, hopens] using hleave.trans (Server.Step.begin _ o.2).steps

theorem Delivered.steps {sid : Sid} {a : Option Answer} {es : List Event}
    (h : Delivered cfg s sid a s' es) :
    Server.Steps (·.script cfg) s.mysql [] s'.mysql ∧ closings es = [] := by
  cases h with
  | nobody => exact ⟨.refl, rfl⟩
  | worker _ _ hx => exact ⟨affect_steps cfg s _, returned_closings hx⟩
  | dispatcher => exact ⟨.refl, rfl⟩
  | call _ _ _ hp => exact ⟨affect_steps cfg s _, proceed_closings hp⟩

theorem forsake_steps (sid : Sid) (x : Session Tables Key Write OutboxRow Answer Op) :
    Server.Steps (·.script cfg) s.mysql [] (s.forsake sid x).mysql := by
  unfold State.forsake
  split
  · exact .refl
  · exact (Server.Step.leave sid).steps

/-- Seen from the database, a step of the system is a few steps of the server. -/
theorem Stepped.steps {a : Action} {es : List Event} (h : Stepped cfg s a s' es) :
    Server.Steps (·.script cfg) s.mysql (closings es) s'.mysql := by
  cases h with
  | advance d => exact (Server.Step.advance d).steps
  | @exec sid now _ h => exact (Server.Step.exec sid now h).steps
  | @close sid how db c _ es h hd =>
    obtain ⟨hsteps, hc⟩ := hd.steps
    have hclosed : closings (.closed sid c :: es) = [(sid, c)] ++ closings es := rfl
    rw [hclosed, hc]
    exact (Server.Step.close sid how h).steps.trans hsteps
  | @giveUp sid x _ _ h hd =>
    obtain ⟨hsteps, hc⟩ := hd.steps
    rw [hc]
    exact (forsake_steps sid x).trans hsteps
  | @publish sid ok _ _ _ h => exact (Server.Step.answer sid ok h).steps
  | @publishLost sid _ _ _ h => exact (Server.Step.answer sid false h).steps
  | startWorker => exact .refl
  | worker _ _ hx =>
    rw [act_closings hx]
    exact affect_steps cfg s _
  | startDispatcher => exact .refl
  | @dispatch d => exact affect_steps cfg s { opens := some (.dispatcher d, .dispatch) }
  | stopDispatcher => exact .refl
  | @crashDispatcher _ x => exact affect_steps cfg s { leaves := x.session }
  | badKey => exact .refl
  | @createJob c _ _ key input id =>
    exact affect_steps cfg s { opens := some (.call c, .createJob (newJob cfg input id key)) }
  | @requeueJob c id => exact affect_steps cfg s { opens := some (.call c, .requeueJob id) }
  | inject => exact .refl
  | dropStream => exact .refl

theorem Stepped.closing {sid : Sid} {how : Closing} {es : List Event}
    (h : Stepped cfg s (.close sid how) s' es) :
    ∃ db c, s.mysql.close sid how = some (db, c) ∧ closings es = [(sid, c)] ∧
      s'.mysql.store = db.store := by
  cases h with
  | @close _ _ db c _ es hm hd =>
    refine ⟨db, c, hm, by simpa [closings] using hd.steps.2, ?_⟩
    cases hd with
    | nobody => rfl
    | worker => exact (affect_store _).1
    | dispatcher => rfl
    | call => exact (affect_store _).1

/-- At most one session is closed in a step. -/
theorem Stepped.closings_cases {a : Action} {es : List Event} (h : Stepped cfg s a s' es) :
    closings es = [] ∨ ∃ sid how db c, a = .close sid how ∧
      s.mysql.close sid how = some (db, c) ∧ closings es = [(sid, c)] := by
  cases h with
  | close hm hd =>
    obtain ⟨db, c, hc, hone, -⟩ := Stepped.closing (.close hm hd)
    exact .inr ⟨_, _, db, c, rfl, hc, hone⟩
  | giveUp _ hd => exact .inl hd.steps.2
  | worker _ _ hx => exact .inl (act_closings hx)
  | _ => exact .inl rfl

/-- A session that is closed in a step is the one that the step is about. -/
theorem Stepped.closed_mem {a : Action} {es : List Event} (h : Stepped cfg s a s' es) {sid : Sid}
    {k : Closed Answer Op} (hmem : .closed sid k ∈ es) : ∃ how db, a = .close sid how ∧
      s.mysql.close sid how = some (db, k) ∧ closings es = [(sid, k)] ∧
      s'.mysql.store = db.store := by
  have hmem := mem_closings.2 hmem
  rcases h.closings_cases with hnil | ⟨sid', how, db, k', rfl, hc, hone⟩
  · simp [hnil] at hmem
  · obtain ⟨rfl, rfl⟩ : sid = sid' ∧ k = k' := by simpa [hone] using hmem
    obtain ⟨_, _, hc', -, hstore⟩ := h.closing
    obtain ⟨rfl, -⟩ := Prod.mk.inj (Option.some.inj (hc.symm.trans hc'))
    exact ⟨how, db, rfl, hc, hone, hstore⟩

/-- Seen from one job, a step changes nothing, or commits one transaction on it. -/
theorem Stepped.view {a : Action} {es : List Event} (h : Stepped cfg s a s' es)
    (hk : Kept cfg s.mysql) (id : JobId) :
    (s'.mysql.store.view id = s.mysql.store.view id ∧ history id (closings es) = []) ∨
    ∃ sid how db op r lo hi, a = .close sid how ∧
      s.mysql.close sid how = some (db, .committed op r) ∧
      Change cfg.lease id lo hi op r (s.mysql.store.view id) (s'.mysql.store.view id) ∧
      history id (closings es) = [(op, r)] ∧ hi.now ≤ s.mysql.clock ∧
      ∃ y, s.mysql.sessions sid = some y ∧ y.op = op ∧ lo.now = y.began := by
  have quiet (hc : ∀ sid op r, (sid, .committed op r) ∉ closings es) :
      s'.mysql.store.view id = s.mysql.store.view id ∧ history id (closings es) = [] := by
    refine ⟨by rw [h.steps.store_eq hc], List.eq_nil_iff_forall_not_mem.2 fun x hx => ?_⟩
    obtain ⟨⟨sid, c⟩, hmem, hx⟩ := List.mem_filterMap.1 hx
    cases c with
    | committed op r => exact hc sid op r hmem
    | _ => cases hx
  rcases h.closings_cases with hnil | ⟨sid, how, db, c, rfl, hc, hone⟩
  · exact .inl (quiet (by simp [hnil]))
  cases c with
  | committed op r =>
    obtain ⟨db', _, hc', -, hstore⟩ := h.closing
    obtain ⟨rfl, rfl⟩ := Prod.mk.inj (Option.some.inj (hc.symm.trans hc'))
    rw [hone, hstore]
    have hhist : history id [(sid, Closed.committed op r)] =
        if about op r = some id then [(op, r)] else [] := by
      by_cases ha : about op r = some id <;> simp [history, committed?, ha]
    rw [hhist]
    rcases hk.commit hc with ⟨hsame, habout, -⟩ | ⟨id', lo, hi, hchange, hothers, hnow, -, hbegan⟩
    · exact .inl ⟨by rw [hsame], by simp [habout]⟩
    · have habout := hchange.about_eq outboxOf_jobId
      by_cases hid : id' = id
      · subst hid
        exact .inr ⟨sid, how, db, op, r, lo, hi, rfl, hc, hchange, by simp [habout], hnow, hbegan⟩
      · exact .inl ⟨hothers id (Ne.symm hid), by simp [habout, hid]⟩
  | aborted op r => exact .inl (quiet (by simp [hone]))
  | failed op => exact .inl (quiet (by simp [hone]))

/-- A state in which nothing runs yet, with any sound tables and any stream. -/
structure Initial (s : State) : Prop where
  sound : ∀ id, (s.mysql.store.view id).Sound
  logged : ∀ id, ∀ l ∈ (s.mysql.store.view id).logs, l.id < s.mysql.serial
  sessions : s.mysql.sessions = fun _ => none
  locks : s.mysql.locks = fun _ => none
  workers : s.workers = fun _ => none
  dispatchers : s.dispatchers = fun _ => none
  calls : s.calls = fun _ => none
  stream : s.stream.Sound

theorem Initial.fresh : Initial .fresh where
  sound id := by
    rw [State.fresh, Tables.view_empty]
    exact ⟨by simp, by simp, by simp, by simp⟩
  logged id := by
    rw [State.fresh, Tables.view_empty]
    simp
  sessions := rfl
  locks := rfl
  workers := rfl
  dispatchers := rfl
  calls := rfl
  stream := ⟨by decide, fun _ ⟨_, hs, _⟩ => (nomatch hs), nofun⟩

theorem Initial.kept (h : Initial s) : Kept cfg s.mysql where
  isolated := ⟨by simp [h.locks], by simp [h.sessions]⟩
  sound := h.sound
  logged := h.logged

theorem Run.steps {s₀ : State} {es : List Event} (h : Run cfg s₀ es s) :
    Server.Steps (·.script cfg) s₀.mysql (closings es) s.mysql := by
  induction h with
  | refl => exact .refl
  | step _ hs ih =>
    rw [closings_append]
    exact ih.trans (step_cases hs).steps

theorem Run.kept {s₀ : State} {es : List Event} (h : Run cfg s₀ es s) (h₀ : Initial s₀) :
    Kept cfg s.mysql := (h₀.kept.life h.steps).1

/-- In every run, what commits on a job is its life. -/
theorem Run.life {s₀ : State} {es : List Event} (h : Run cfg s₀ es s) (h₀ : Initial s₀)
    (id : JobId) :
    Life cfg.lease id (s₀.mysql.store.view id) s₀.mysql.clock (history id (closings es))
      (s.mysql.store.view id) s.mysql.clock := (h₀.kept.life h.steps).2 id

end Runs

end ScaleQueue
