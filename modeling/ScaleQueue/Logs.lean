import ScaleQueue.Audit
import ScaleQueue.Paging

/-!
# The log of a job, as it is listed

`GET /jobs/:id/logs` (`JobService.getJobLogs`) lists the log in ascending order of
`created_at`, which is in seconds. The entries of a job are written under its lock and
stamped after it was taken, so the log does not go back in time (`Punctual`): what may be
listed out of order are the entries of one second, and they may (`logs_in_order_iff`).
-/

namespace ScaleQueue

open Locking

/-- What `getJobLogs` may return. -/
def ListsJobLogs (t : Tables) (id : JobId) : List LogRow → Prop :=
  Paging.Answers (fun l => OrderDual.toDual l.createdAt) (t.logsOf id)

/-- The list tells the transitions of the job in the order they were committed: from its
    creation, each from where the one before it led to, to its status. -/
structure InOrder (t : Tables) (id : JobId) (rows : List LogRow) : Prop where
  committed : rows = t.logsOf id
  first : ∃ l ∈ rows.head?, l.fromStatus = none ∧ l.toStatus = .pending
  chain : rows.IsChain fun l l' => l'.fromStatus = some l.toStatus
  last : ∃ l ∈ rows.getLast?, ∃ r ∈ t.job? id, l.toStatus = r.status

/-! ## Stamps -/

/-- An entry is written under a lock that was taken before, and stamped with the time. -/
def Stamped (e : Env) (H : List Key) : Write → Prop
  | .insertLog l => .job l.jobId ∈ H ∧ l.createdAt = seconds e.now
  | _ => True

section Scripts

variable {id : JobId} {H : List Key} {next : Tx}

theorem selectForUpdate_stamped {next : ℕ → Option JobRow → Tx}
    (h : ∀ now r, (next now r).Writes Stamped (.job id :: H)) :
    (selectForUpdate id next).Writes Stamped H :=
  ⟨fun _ _ _ hw => absurd hw List.not_mem_nil, fun _ _ => h _ _⟩

theorem updateJob_stamped {f : ℕ → JobUpdate} (h : next.Writes Stamped (.job id :: H)) :
    (updateJob id f next).Writes Stamped H := by
  refine ⟨fun e t w hw => ?_, fun _ _ => h⟩
  obtain rfl := List.mem_singleton.1 hw
  trivial

theorem updateWhere_stamped {cond : ℕ → JobRow → Bool} {f : ℕ → JobUpdate}
    {changes : ℕ → JobRow → Bool} {next : ℕ → Tx}
    (h : ∀ n, (next n).Writes Stamped (.job id :: H)) :
    (updateWhere id cond f changes next).Writes Stamped H := by
  refine ⟨fun e t w hw => ?_, fun _ _ => h _⟩
  dsimp only at hw
  split at hw
  · obtain rfl := List.mem_singleton.1 hw
    trivial
  · exact absurd hw List.not_mem_nil

theorem insertLog_stamped {fromStatus : Option JobStatus} {toStatus : JobStatus}
    {message : String} {workerId : Option WorkerId} (hid : .job id ∈ H)
    (h : next.Writes Stamped (.job id :: H)) :
    (insertLog id fromStatus toStatus message workerId next).Writes Stamped H := by
  refine ⟨fun e t w hw => ?_, fun _ _ => h⟩
  obtain rfl := List.mem_singleton.1 hw
  exact ⟨hid, rfl⟩

theorem insertOutbox_stamped {p : Place} {availableAt : ℕ → ℕ}
    (h : next.Writes Stamped (.out p :: H)) :
    (insertOutbox p availableAt next).Writes Stamped H := by
  refine ⟨fun e t w hw => ?_, fun e t => ?_⟩
  · dsimp only at hw
    split at hw
    · obtain rfl := List.mem_singleton.1 hw
      trivial
    · exact absurd hw List.not_mem_nil
  · dsimp only
    split
    · trivial
    · split
      · trivial
      · exact h

theorem owned_stamped {n : ℕ} (h : next.Writes Stamped H) : (owned n next).Writes Stamped H := by
  unfold owned
  split
  · trivial
  · exact h

theorem claim_stamped (lease : ℕ) (id : JobId) (generation : ℕ) (owner : WorkerId) :
    (claim lease id generation owner).Writes Stamped [] := by
  refine selectForUpdate_stamped fun now row => ?_
  cases row with
  | none => trivial
  | some j =>
    simp only
    split_ifs
    · trivial
    · trivial
    · trivial
    · exact updateJob_stamped (insertLog_stamped List.mem_cons_self trivial)
    · trivial
    · exact updateJob_stamped (insertLog_stamped List.mem_cons_self trivial)

theorem renew_stamped (lease : ℕ) (j : Job) : (renew lease j).Writes Stamped [] :=
  updateWhere_stamped fun _ => owned_stamped trivial

theorem finish_stamped (j : Job) (status : JobStatus) (message : String) (delay : ℕ) :
    (finish j status message delay).Writes Stamped [] := by
  refine updateWhere_stamped fun _ => owned_stamped (insertLog_stamped List.mem_cons_self ?_)
  split
  · refine selectForUpdate_stamped fun _ row => ?_
    cases row with
    | none => trivial
    | some r => exact insertOutbox_stamped trivial
  · trivial

theorem dispatch_stamped : dispatch.Writes Stamped [] := by
  intro _ t picked
  dsimp only
  split
  · split
    · trivial
    · intro _ t'
      dsimp only
      split
      · trivial
      · split_ifs
        · refine ⟨fun _ _ w hw => ?_, fun _ _ => trivial⟩
          obtain rfl := List.mem_singleton.1 hw
          trivial
        · intro ok
          cases ok with
          | false => trivial
          | true =>
            refine ⟨fun _ _ w hw => ?_, fun _ _ => trivial⟩
            obtain rfl := List.mem_singleton.1 hw
            trivial
  · trivial

theorem createJob_stamped (j : NewJob) : (createJob j).Writes Stamped [] := by
  refine ⟨fun e t w hw => ?_, fun e t => ?_⟩
  · dsimp only at hw
    split at hw
    · obtain rfl := List.mem_singleton.1 hw
      trivial
    · exact absurd hw List.not_mem_nil
  · dsimp only
    split
    · exact insertLog_stamped (by simp) (insertOutbox_stamped trivial)
    · trivial

theorem requeueJob_stamped (id : JobId) : (requeueJob id).Writes Stamped [] := by
  refine selectForUpdate_stamped fun _ row => ?_
  cases row with
  | none => trivial
  | some job =>
    simp only
    split_ifs
    · trivial
    · trivial
    · exact updateJob_stamped (insertLog_stamped List.mem_cons_self (insertOutbox_stamped trivial))

theorem Op.script_stamped (cfg : Config) (op : Op) : (op.script cfg).Writes Stamped [] := by
  cases op with
  | claim => exact claim_stamped _ _ _ _
  | renew => exact renew_stamped _ _
  | finish => exact finish_stamped _ _ _ _
  | dispatch => exact dispatch_stamped
  | createJob => exact createJob_stamped _
  | requeueJob => exact requeueJob_stamped _
  | selectById => exact fun _ _ => trivial
  | selectByRequestKey => exact fun _ _ => trivial

end Scripts

/-! ## The log does not go back in time -/

/-- The log of the job is in the order of its stamps, and whoever holds the lock of the job
    has come to the time of its last entry. -/
structure Punctual (id : JobId) (m : MySQL) : Prop where
  sorted : (m.store.logsOf id).Pairwise (·.createdAt ≤ ·.createdAt)
  past : ∀ l ∈ m.store.logsOf id, l.createdAt ≤ seconds m.clock
  held : ∀ sid y, m.sessions sid = some y → m.locks (.job id) = some sid →
    ∀ l ∈ m.store.logsOf id, l.createdAt ≤ seconds y.since
  written : ∀ sid y l, m.sessions sid = some y → .insertLog l ∈ y.writes → l.jobId = id →
    l.createdAt ≤ seconds m.clock ∧ ∀ q ∈ m.store.logsOf id, q.createdAt ≤ l.createdAt

theorem seconds_mono {t t' : ℕ} (h : t ≤ t') : seconds t ≤ seconds t' := Nat.div_le_div_right h

theorem mem_logsOf {t : Tables} {id : JobId} {l : LogRow} :
    l ∈ t.logsOf id ↔ l ∈ t.jobAuditLogs ∧ l.jobId = id := by
  simp [Tables.logsOf]

theorem mem_logs_apply {t : Tables} {w : Write} {l : LogRow} (h : l ∈ (t.apply w).jobAuditLogs) :
    l ∈ t.jobAuditLogs ∨ w = .insertLog l := by
  cases w with
  | insertLog q =>
    rw [Tables.logs_insertLog] at h
    rcases List.mem_append.1 h with h | h
    · exact .inl h
    · exact .inr (by rw [List.mem_singleton.1 h])
  | _ => exact .inl (by simpa using h)

/-- The entries of a log are those that were there, and those that were written. -/
theorem mem_logsOf_applyAll {t : Tables} {ws : List Write} {id : JobId} {l : LogRow}
    (h : l ∈ (applyAll t ws).logsOf id) : l ∈ t.logsOf id ∨ .insertLog l ∈ ws ∧ l.jobId = id := by
  induction ws generalizing t with
  | nil => exact .inl h
  | cons w ws ih =>
    rw [applyAll_cons, apply_eq] at h
    rcases ih h with h | ⟨h, hid⟩
    · obtain ⟨h, hid⟩ := mem_logsOf.1 h
      rcases mem_logs_apply h with h | rfl
      · exact .inl (mem_logsOf.2 ⟨h, hid⟩)
      · exact .inr ⟨List.mem_cons_self, hid⟩
    · exact .inr ⟨List.mem_cons_of_mem _ h, hid⟩

section Steps

variable {cfg : Config} {m m' : MySQL} {id : JobId} {sid : Sid}

theorem Punctual.advance (h : Punctual id m) (d : ℕ) : Punctual id (m.advance d) := by
  have hle : seconds m.clock ≤ seconds (m.advance d).clock := seconds_mono (Nat.le_add_right _ _)
  refine ⟨h.sorted, fun l hl => (h.past l hl).trans hle, h.held, fun sid y l hy hl hid => ?_⟩
  obtain ⟨hnow, hold⟩ := h.written sid y l hy hl hid
  exact ⟨hnow.trans hle, hold⟩

/-- Session `sid` is another, and the others are those of before. -/
theorem of_update {f : Sid → Option Conn} {x y : Conn} {sid' : Sid}
    (h : Function.update f sid (some x) sid' = some y) :
    sid' = sid ∧ x = y ∨ sid' ≠ sid ∧ f sid' = some y := by
  by_cases hs : sid' = sid
  · subst hs
    exact .inl ⟨rfl, by simpa using h⟩
  · exact .inr ⟨hs, by simpa [hs] using h⟩

/-- A session that comes to the present keeps the log punctual, whatever it stamps. -/
theorem Punctual.present (h : Punctual id m) {x : Conn} {locks : Key → Option Sid} {n : ℕ}
    (hsince : x.since = m.clock)
    (hlocks : ∀ sid', locks (.job id) = some sid' → sid' ≠ sid → m.locks (.job id) = some sid')
    (hwritten : ∀ l, .insertLog l ∈ x.writes → l.jobId = id →
      l.createdAt ≤ seconds m.clock ∧ ∀ q ∈ m.store.logsOf id, q.createdAt ≤ l.createdAt) :
    Punctual id { m with
      serial := n, locks := locks, sessions := Function.update m.sessions sid (some x) } := by
  refine ⟨h.sorted, h.past, fun sid' y hy hlock => ?_, fun sid' y l hy hl hid => ?_⟩
  · rcases of_update hy with ⟨-, rfl⟩ | ⟨hs, hy⟩
    · exact hsince ▸ h.past
    · exact h.held sid' y hy (hlocks sid' hlock hs)
  · rcases of_update hy with ⟨-, rfl⟩ | ⟨-, hy⟩
    · exact hwritten l hl hid
    · exact h.written sid' y l hy hl hid

theorem Punctual.leave (h : Punctual id m) (sid : Sid) : Punctual id (m.leave sid) := by
  have hold {sid' : Sid} {y : Conn} (hy : (m.leave sid).sessions sid' = some y) :
      ∃ y', m.sessions sid' = some y' ∧ y'.since = y.since ∧ y'.writes = y.writes := by
    by_cases hs : sid' = sid
    · subst hs
      obtain ⟨y', hy', rfl⟩ :
          ∃ y', m.sessions sid' = some y' ∧ { y' with attended := false } = y := by
        simpa [Server.leave] using hy
      exact ⟨y', hy', rfl, rfl⟩
    · exact ⟨y, by simpa [Server.leave, hs] using hy, rfl, rfl⟩
  refine ⟨h.sorted, h.past, fun sid' y hy hlock => ?_, fun sid' y l hy hl => ?_⟩
  · obtain ⟨y', hy', hsince, -⟩ := hold hy
    exact hsince ▸ h.held sid' y' hy' hlock
  · obtain ⟨y', hy', -, hwrites⟩ := hold hy
    exact h.written sid' y' l hy' (hwrites ▸ hl)

/-- A statement that stamps an entry does so after the lock was taken. -/
theorem Punctual.exec (h : Punctual id m) (hk : Kept cfg m) {now : ℕ}
    (hx : m.exec sid now = some m') : Punctual id m' := by
  obtain ⟨hstore, hclock, -, ⟨keys, hlocks, -⟩, x, x', hxs, hsess, -, -, hsince, -⟩ :=
    Server.exec_cases hx
  obtain ⟨z, y, hz, hy, hle, hnow, hwrites⟩ := Server.exec_writes hx
  obtain rfl := Option.some.inj (hxs.symm.trans hz)
  obtain rfl : x' = y := by simpa [hsess] using hy
  obtain ⟨store, clock, serial, locks, sessions⟩ := m'
  obtain rfl : store = m.store := hstore
  obtain rfl : clock = m.clock := hclock
  obtain rfl : sessions = _ := hsess
  refine h.present hsince (fun sid' hlock hs => ?_) fun l hl hid => ?_
  · rw [show locks = _ from hlocks, Server.take] at hlock
    split at hlock
    · exact absurd (Option.some.inj hlock).symm hs
    · exact hlock
  · rcases hwrites _ hl with hl | ⟨keys', write, next, hrest, hl⟩
    · exact h.written sid x l hxs hl hid
    · obtain ⟨n, H, hrun, -, -, hheld⟩ := hk.isolated.runs sid x hxs
      have hstamped := hrun.writes (P := Stamped) (Op.script_stamped cfg x.op)
      rw [hrest] at hstamped
      obtain ⟨hlock, hstamp⟩ : Key.job l.jobId ∈ H ∧ l.createdAt = seconds now :=
        hstamped.1 _ _ _ hl
      rw [hid] at hlock
      rw [hstamp]
      exact ⟨seconds_mono hnow, fun q hq =>
        (h.held sid x hxs (hheld _ hlock) q hq).trans (seconds_mono hle)⟩

/-- A commit adds one entry to the log of a job, or none. -/
theorem Kept.logsOf_commit (hk : Kept cfg m) {how : Closing} {op : Op} {a : Answer}
    (hx : m.close sid how = some (m', .committed op a)) (id : JobId) :
    m'.store.logsOf id = m.store.logsOf id ∨ ∃ l, m'.store.logsOf id = m.store.logsOf id ++ [l] ∧
      ∀ q ∈ m.store.logsOf id, q.id < l.id := by
  rcases hk.commit hx with ⟨hstore, -⟩ | ⟨id', lo, hi, hchange, hothers, -⟩
  · exact .inl (by rw [hstore])
  · by_cases hid : id = id'
    · subst hid
      rcases hchange.logs_cases with hlogs | ⟨l, hlogs, hlt, -⟩
      · exact .inl hlogs
      · exact .inr ⟨l, hlogs, hlt⟩
    · exact .inl (congrArg JobView.logs (hothers id hid))

/-- What is committed to the log was stamped later than what is in it. -/
theorem Punctual.close (h : Punctual id m) (hk : Kept cfg m) {how : Closing}
    {c : Closed Answer Op} (hx : m.close sid how = some (m', c)) : Punctual id m' := by
  obtain ⟨x, hxs, hcase⟩ := Server.close_cases hx
  -- Only whoever holds the lock of the job has written to its log.
  have hlocked {sid' : Sid} {y : Conn} (hy : m.sessions sid' = some y) {l : LogRow}
      (hl : .insertLog l ∈ y.writes) (hid : l.jobId = id) : m.locks (.job id) = some sid' :=
    (hk.isolated.runs sid' y hy).holds (Op.script_obeys cfg) hl (hid ▸ List.mem_cons_self)
  have hdrop {t : Tables} (hnew : ∀ l ∈ t.logsOf id, l ∈ m.store.logsOf id ∨
      .insertLog l ∈ x.writes ∧ l.jobId = id)
      (hsorted : (t.logsOf id).Pairwise (·.createdAt ≤ ·.createdAt)) :
      Punctual id (m.drop sid t) := by
    have hother {sid' : Sid} {y : Conn} (hy : (m.drop sid t).sessions sid' = some y) :
        sid' ≠ sid ∧ m.sessions sid' = some y := by
      by_cases hs : sid' = sid
      · simp [Server.drop, hs] at hy
      · exact ⟨hs, by simpa [Server.drop, hs] using hy⟩
    have hold {sid' : Sid} (hs : sid' ≠ sid) (hlock : m.locks (.job id) = some sid') :
        ∀ l ∈ t.logsOf id, l ∈ m.store.logsOf id := fun l hl => by
      rcases hnew l hl with hl | ⟨hw, hid⟩
      · exact hl
      · exact absurd (Option.some.inj (hlock.symm.trans (hlocked hxs hw hid))) hs
    refine ⟨hsorted, fun l hl => ?_, fun sid' y hy hlock l hl => ?_, fun sid' y l hy hw hid => ?_⟩
    · rcases hnew l hl with hl | ⟨hw, hid⟩
      · exact h.past l hl
      · exact (h.written sid x l hxs hw hid).1
    · obtain ⟨hs, hy⟩ := hother hy
      have hlock : m.locks (.job id) = some sid' := by
        by_contra hne
        simp only [Server.drop, Server.release] at hlock
        split at hlock
        · cases hlock
        · exact hne hlock
      exact h.held sid' y hy hlock l (hold hs hlock l hl)
    · obtain ⟨hs, hy⟩ := hother hy
      obtain ⟨hnow, hle⟩ := h.written sid' y l hy hw hid
      exact ⟨hnow, fun q hq => hle q (hold hs (hlocked hy hw hid) q hq)⟩
  rcases hcase with ⟨r, -, rfl, rfl⟩ | ⟨r, -, rfl, rfl⟩ | ⟨rfl, rfl⟩
  · refine hdrop (fun l hl => mem_logsOf_applyAll hl) ?_
    rcases hk.logsOf_commit hx id with hlogs | ⟨l, hlogs, hlt⟩
    · exact hlogs ▸ h.sorted
    · rcases mem_logsOf_applyAll (hlogs ▸ List.mem_append_right _ List.mem_cons_self) with hl | hl
      · exact absurd (hlt l hl) (lt_irrefl _)
      · refine hlogs ▸ List.pairwise_append.2 ⟨h.sorted, List.pairwise_singleton _ _, ?_⟩
        intro q hq p hp
        rw [List.mem_singleton.1 hp]
        exact (h.written sid x l hxs hl.1 hl.2).2 q hq
  · exact hdrop (fun l hl => .inl hl) h.sorted
  · exact hdrop (fun l hl => .inl hl) h.sorted

theorem Punctual.step (h : Punctual id m) (hk : Kept cfg m) {c : Option (Sid × Closed Answer Op)}
    (hs : Server.Step (·.script cfg) m c m') : Punctual id m' := by
  cases hs with
  | advance d => exact h.advance d
  | begin sid op =>
    exact h.present rfl (fun _ hlock _ => hlock) fun l hl => absurd hl List.not_mem_nil
  | leave sid => exact h.leave sid
  | exec sid now hx => exact h.exec hk hx
  | answer sid b hx =>
    obtain ⟨x, _, _, hxs, -, rfl⟩ := Server.answer_cases hx
    exact h.present rfl (fun _ hlock _ => hlock) fun l hl => h.written sid x l hxs hl
  | close sid how hx => exact h.close hk hx

theorem Punctual.steps (h : Punctual id m) (hk : Kept cfg m) {cs : List (Sid × Closed Answer Op)}
    (hs : Server.Steps (·.script cfg) m cs m') : Punctual id m' := by
  induction hs with
  | refl => exact h
  | tail hs hstep ih => exact ih.step (hk.life hs).1 hstep

/-- In every run, the log of a job that was created in it does not go back in time. -/
theorem Run.punctual {s₀ s : State} {es : List Event} (h : Run cfg s₀ es s) (h₀ : Initial s₀)
    (hnew : s₀.mysql.store.job? id = none) : Punctual id s.mysql := by
  refine Punctual.steps ?_ h₀.kept h.steps
  have hnil : s₀.mysql.store.logsOf id = [] := ((h₀.sound id).absent hnew).1
  exact ⟨by simp [hnil], by simp [hnil], by simp [h₀.sessions], by simp [h₀.sessions]⟩

end Steps

/-! ## The list -/

/-- In every run, whatever is returned for a job that was created in it tells its
    transitions in order, if and only if no two of them were recorded within the same
    second. -/
theorem logs_in_order_iff {cfg : Config} {s₀ s : State} {es : List Event} (h₀ : Initial s₀)
    (h : Run cfg s₀ es s) {id : JobId} (hnew : s₀.mysql.store.job? id = none) {r : JobRow}
    (hr : s.mysql.store.job? id = some r) :
    (∀ rows, ListsJobLogs s.mysql.store id rows → InOrder s.mysql.store id rows) ↔
      ((s.mysql.store.logsOf id).map (·.createdAt)).Nodup := by
  have haudited : Audited (s.mysql.store.logsOf id) r := h.audited h₀ hnew r hr
  have hnodup : (s.mysql.store.logsOf id).Nodup :=
    List.Nodup.of_map (·.id) (List.pairwise_map.2 (haudited.sorted.imp ne_of_lt))
  have horder : InOrder s.mysql.store id (s.mysql.store.logsOf id) := by
    obtain ⟨l, hl, hst⟩ := haudited.last
    exact ⟨rfl, haudited.first, haudited.chain.imp fun _ _ h => h.1, l, hl, r, hr, hst⟩
  have hstrict : ((s.mysql.store.logsOf id).Pairwise fun a b =>
      OrderDual.toDual b.createdAt < OrderDual.toDual a.createdAt) ↔
      ((s.mysql.store.logsOf id).map (·.createdAt)).Nodup := by
    rw [List.Nodup, List.pairwise_map]
    refine ⟨fun hlt => hlt.imp fun h => ne_of_lt (OrderDual.toDual_lt_toDual.1 h), fun hne => ?_⟩
    exact ((h.punctual h₀ hnew).sorted.and hne).imp fun h =>
      OrderDual.toDual_lt_toDual.2 (lt_of_le_of_ne h.1 h.2)
  rw [← hstrict, ← Paging.answers_unique_iff hnodup]
  refine ⟨fun hall out hout => (hall out hout).committed, fun hall rows hrows => ?_⟩
  exact hall rows hrows ▸ horder

/-- The first job, claimed a second after it was created: its log is listed in order. -/
theorem logs_in_order_iff_first :
    let s := (State.after (creating 0 0 0 firstInput firstJob ++ [.startWorker "w",
      .startDispatcher 0] ++ dispatching 0 2 0 ++ [.advance 1000000] ++ claiming "w" 3 1000000)).1
    (s.mysql.store.logsOf firstJob).map (·.toStatus) = [.pending, .processing] ∧
    ∀ rows, ListsJobLogs s.mysql.store firstJob rows → InOrder s.mysql.store firstJob rows :=
  ⟨by decide, (logs_in_order_iff .fresh (Run.play _ _ _) rfl rfl).2 (by decide)⟩

/-- The first job, claimed within the second in which it was created: its log may be listed
    the other way round. -/
theorem logs_out_of_order : ¬ ∀ (cfg : Config) (s₀ s : State) (es : List Event), Initial s₀ →
    Run cfg s₀ es s → ∀ id, s₀.mysql.store.job? id = none → ∀ r, s.mysql.store.job? id = some r →
    ∀ rows, ListsJobLogs s.mysql.store id rows → InOrder s.mysql.store id rows := by
  intro h
  have hfirst := h _ _ _ _ .fresh (Run.play (.defaults id) .fresh firstClaim) firstJob rfl _ rfl
    ((State.after firstClaim).1.mysql.store.logsOf firstJob).reverse
    ⟨List.reverse_perm _, by decide⟩
  exact absurd hfirst.committed (by decide)

end ScaleQueue
