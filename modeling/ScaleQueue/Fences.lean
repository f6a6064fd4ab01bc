import ScaleQueue.Generations
import ScaleQueue.Deliveries
import ScaleQueue.Sessions

/-!
# Outcomes are fenced

A job in progress is in the attempt of the last claim that was committed on it
(`Life.attempt`). A row does not tell which attempt a `Finish` belongs to; that
it is the last one follows from the order of things: the worker that waits for
the `Finish` has claimed nothing since (`Latest`), and a transaction that is
about to commit holds the row.
-/

namespace ScaleQueue

open Locking

/-! ## Attempts -/

/-- The row is in the attempt of `j`. -/
structure JobRow.In (j : Job) (r : JobRow) : Prop where
  id_eq : r.id = j.id
  type_eq : r.type = j.type
  generation : r.generation = j.generation
  attemptCount : r.attemptCount = j.attemptCount
  maxRetries : r.maxRetries = j.maxRetries
  leaseOwner : r.leaseOwner = some j.leaseOwner

section Lives

variable {lease : ℕ} {id : JobId} {v₀ v : JobView} {t₀ t : ℕ} {h : List (Op × Answer)}

/-- A job in progress is in the attempt of its last claim, and nothing was decided
    since; or it has been in progress all the time. -/
theorem Life.attempt (hl : Life lease id v₀ t₀ h v t) : ∀ r ∈ v.row, r.status = .processing →
    (∀ x ∈ h, decides x = false) ∨ ∃ h₁ j h₂,
      h = h₁ ++ (.claim id j.generation j.leaseOwner, .job j) :: h₂ ∧
      (∀ x ∈ h₂, decides x = false) ∧ r.In j := by
  induction hl with
  | start => exact fun _ _ _ => .inl (by simp)
  | wait _ _ ih => exact ih
  | @change h _ _ _ _ _ op a _ hc _ ih =>
    -- What decides nothing leaves the attempt as it is.
    have keep {r r' : JobRow} (hop : decides (op, a) = false)
        (hr : (∀ x ∈ h, decides x = false) ∨ ∃ h₁ j h₂,
          h = h₁ ++ (.claim id j.generation j.leaseOwner, .job j) :: h₂ ∧
          (∀ x ∈ h₂, decides x = false) ∧ r.In j)
        (hin : ∀ j, r.In j → r'.In j) :
        (∀ x ∈ h ++ [(op, a)], decides x = false) ∨ ∃ h₁ j h₂,
          h ++ [(op, a)] = h₁ ++ (.claim id j.generation j.leaseOwner, .job j) :: h₂ ∧
          (∀ x ∈ h₂, decides x = false) ∧ r'.In j := by
      have snoc {l : List (Op × Answer)} (hl : ∀ x ∈ l, decides x = false) :
          ∀ x ∈ l ++ [(op, a)], decides x = false := by
        simpa [or_imp, forall_and, hop] using hl
      rcases hr with hr | ⟨h₁, j, h₂, rfl, hh₂, hj⟩
      · exact .inl (snoc hr)
      · exact .inr ⟨h₁, j, h₂ ++ [(op, a)], by simp, snoc hh₂, hin j hj⟩
    intro r' hr' hp
    cases hc with
    | @claimed g owner r _ _ _ _ _ _ hid hr =>
      obtain rfl := Option.some.inj hr'
      refine .inr ⟨h, r.toJob owner, [], ?_, by simp, ⟨rfl, rfl, rfl, rfl, rfl, rfl⟩⟩
      rw [← hr.generation_eq]
      rfl
    | exhausted =>
      obtain rfl := Option.some.inj hr'
      simp [JobRow.bury] at hp
    | renewed =>
      obtain rfl := Option.some.inj hr'
      exact keep rfl (ih _ rfl hp) fun j hj => ⟨hj.1, hj.2, hj.3, hj.4, hj.5, hj.6⟩
    | @finished _ e _ _ _ _ _ _ _ _ _ _ he =>
      obtain rfl := Option.some.inj hr'
      cases e <;> simp [JobRow.finish, Ending.status] at hp
    | retried =>
      obtain rfl := Option.some.inj hr'
      simp [JobRow.finish] at hp
    | published => exact keep rfl (ih _ hr' hp) fun _ h => h
    | dropped => exact keep rfl (ih _ hr' hp) fun _ h => h
    | created =>
      obtain rfl := Option.some.inj hr'
      simp [NewJob.row] at hp
    | requeued =>
      obtain rfl := Option.some.inj hr'
      simp [JobRow.requeue] at hp

/-- The job was claimed in an earlier attempt than `r` is in, or in the same. -/
def Job.Upto (j : Job) (r : JobRow) : Prop :=
  j.generation < r.generation ∨ j.generation = r.generation ∧ j.attemptCount ≤ r.attemptCount

/-- No two claims return the same job. -/
theorem Life.claims_nodup (hl : Life lease id v₀ t₀ h v t) :
    (claims h).Nodup ∧ ∀ j ∈ claims h, ∃ r ∈ v.row, j.Upto r := by
  induction hl with
  | start => exact ⟨List.nodup_nil, by simp [claims]⟩
  | wait _ _ ih => exact ih
  | @change h v v' _ _ _ op a _ hc _ ih =>
    obtain ⟨hn, hupto⟩ := ih
    -- What claims nothing keeps the claims, if the row does not fall back.
    have keep (hclaim : claimed? (op, a) = none)
        (hr : ∀ r ∈ v.row, ∃ r' ∈ v'.row, ∀ j : Job, j.Upto r → j.Upto r') :
        (claims (h ++ [(op, a)])).Nodup ∧
          ∀ j ∈ claims (h ++ [(op, a)]), ∃ r ∈ v'.row, j.Upto r := by
      have : claims (h ++ [(op, a)]) = claims h := by simp [claims, hclaim]
      rw [this]
      refine ⟨hn, fun j hj => ?_⟩
      obtain ⟨r, hr', hj⟩ := hupto j hj
      obtain ⟨r', hr'', hup⟩ := hr r hr'
      exact ⟨r', hr'', hup j hj⟩
    cases hc with
    | @claimed g owner r _ _ _ t₂ _ _ hid hr =>
      have : claims (h ++ [(.claim id g owner, .job (r.toJob owner))]) =
          claims h ++ [r.toJob owner] := by simp [claims, claimed?]
      rw [this]
      have hup {j : Job} (hj : j.Upto r) : j.Upto (r.claim owner lease t₂) :=
        hj.imp_right fun h => ⟨h.1, Nat.le_succ_of_le h.2⟩
      refine ⟨List.nodup_append.2 ⟨hn, by simp, fun j hj j' hj' heq => ?_⟩, fun j hj => ?_⟩
      -- The earlier claims are of the row as it was, with fewer attempts.
      · obtain rfl := List.mem_singleton.1 hj'
        obtain ⟨_, hr', hj⟩ := hupto j hj
        obtain rfl := Option.some.inj hr'
        subst heq
        rcases hj with hlt | ⟨-, hle⟩
        · exact absurd hlt (lt_irrefl _)
        · exact absurd hle (Nat.not_succ_le_self _)
      · refine ⟨_, rfl, ?_⟩
        rcases List.mem_append.1 hj with hj | hj
        · obtain ⟨_, hr', hj⟩ := hupto j hj
          obtain rfl := Option.some.inj hr'
          exact hup hj
        · obtain rfl := List.mem_singleton.1 hj
          exact .inr ⟨rfl, le_rfl⟩
    | exhausted => exact keep rfl fun r hr => by cases hr; exact ⟨_, rfl, fun _ h => h⟩
    | renewed => exact keep rfl fun r hr => by cases hr; exact ⟨_, rfl, fun _ h => h⟩
    | finished => exact keep rfl fun r hr => by cases hr; exact ⟨_, rfl, fun _ h => h⟩
    | retried => exact keep rfl fun r hr => by cases hr; exact ⟨_, rfl, fun _ h => h⟩
    | published => exact keep rfl fun r hr => ⟨r, hr, fun _ h => h⟩
    | dropped => exact keep rfl fun r hr => ⟨r, hr, fun _ h => h⟩
    | created => exact keep rfl (by simp)
    | requeued =>
      refine keep rfl fun r hr => ?_
      cases hr
      exact ⟨_, rfl, fun j hj => .inl (Nat.lt_succ_of_le (hj.elim Nat.le_of_lt fun h => h.1.le))⟩

end Lives

/-! ## The attempt that a worker is in -/

/-- The job that is in the hands of the handler, or of `Finish`. -/
def Phase.job? : Phase → Option Job
  | .running _ j _ _ => some j
  | .finishing _ j _ => some j
  | _ => none

/-- The last claim that the owner of `j` has committed on its job is that of `j`. -/
def Latest (es : List Event) (j : Job) : Prop :=
  ∃ h₁ h₂, history j.id (closings es) =
    h₁ ++ (.claim j.id j.generation j.leaseOwner, .job j) :: h₂ ∧
    ∀ x ∈ h₂, ∀ id g a, x ≠ (.claim id g j.leaseOwner, a)

theorem mem_history {id : JobId} {cs : List (Sid × Closed Answer Op)} {op : Op} {a : Answer} :
    (op, a) ∈ history id cs ↔ (∃ sid, (sid, .committed op a) ∈ cs) ∧ about op a = some id := by
  simp only [history, List.mem_filterMap, Prod.exists]
  constructor
  · rintro ⟨sid, c, hc, h⟩
    cases c with
    | committed op' a' =>
      simp only [committed?] at h
      split_ifs at h with habout
      obtain ⟨rfl, rfl⟩ := Prod.mk.inj (Option.some.inj h)
      exact ⟨⟨sid, hc⟩, habout⟩
    | _ => simp [committed?] at h
  · rintro ⟨⟨sid, hc⟩, habout⟩
    exact ⟨sid, _, hc, by simp [committed?, habout]⟩

theorem Latest.append {es es' : List Event} {j : Job} (h : Latest es j)
    (hno : ∀ sid g a, (sid, .committed (.claim j.id g j.leaseOwner) a) ∉ closings es') :
    Latest (es ++ es') j := by
  obtain ⟨h₁, h₂, heq, hh₂⟩ := h
  refine ⟨h₁, h₂ ++ history j.id (closings es'), by simp [heq], ?_⟩
  rintro x hx id g a rfl
  rcases List.mem_append.1 hx with hx | hx
  · exact hh₂ _ hx id g a rfl
  · obtain ⟨⟨sid, hc⟩, habout⟩ := mem_history.1 hx
    obtain rfl : id = j.id := Option.some.inj habout
    exact hno sid g a hc

/-- Who is in the hands of a worker, or about to be finished, has not been claimed
    by the same worker since; nor is it about to be. -/
structure Fenced (es : List Event) (s : State) : Prop where
  owner : ∀ w x j, s.workers w = some x → x.phase.job? = some j → j.leaseOwner = w
  latest : ∀ w x j, s.workers w = some x → x.phase.job? = some j → Latest es j
  clear : ∀ w x j sid y g a, s.workers w = some x → x.phase.job? = some j →
    s.mysql.sessions sid = some y → y.op = .claim j.id g w → y.rest ≠ .commit a
  final : ∀ sid y j e message delay a, s.mysql.sessions sid = some y →
    y.op = .finish j e message delay → y.rest = .commit a → Latest es j

section Steps

variable {cfg : Config} {s s' : State} {w : WorkerId} {sid : Sid}

/-- A closed session is gone for good. -/
theorem Stepped.closed {how : Closing} {es : List Event} (h : Stepped cfg s (.close sid how) s' es)
    (hp : Paired none s) : s'.mysql.sessions sid = none := by
  cases h with
  | @close _ _ db _ _ _ hm hd =>
    have hnone : db.sessions sid = none := by simp [close_sessions hm]
    have hnum : sid.number < s.opened := by
      obtain ⟨y, hy, -⟩ := Server.close_cases hm
      exact hp.number sid y hy
    have keep (fx : Effects) :
        ((State.affect cfg { s with mysql := db } fx).mysql.sessions sid) = none := by
      rw [Option.eq_none_iff_forall_ne_some]
      intro y hy
      rcases affect_opens fx hy with ⟨y', hy'⟩ | ⟨p, op, -, rfl, -⟩
      · simp [hnone] at hy'
      · exact lt_irrefl _ hnum
    cases hd with
    | nobody => exact hnone
    | worker => exact keep _
    | dispatcher => exact hnone
    | call => exact keep _

@[simp] theorem Phase.cancel_job (p : Phase) : p.cancel.job? = p.job? := by
  cases p <;> rfl

theorem Acted.job {x x' : Worker} {fx : Effects} (h : Acted s w x x' fx) {j : Job}
    (hj : x'.phase.job? = some j) : x.phase.job? = some j := by
  cases h with
  | same hp => rwa [hp] at hj
  | delivered _ _ hp => simp [hp, Phase.job?] at hj
  | malformed _ _ hp => simp [hp, Phase.job?] at hj
  | ticked hx _ hp => rw [hp] at hj; rw [hx]; exact hj
  | result hx _ hp => rw [hp] at hj; rw [hx]; exact hj
  | panicked _ hp => simp [hp, Phase.job?] at hj
  | retained _ _ hp => simp [hp, Phase.job?] at hj
  | settled hx _ _ hp => rw [hp] at hj; rw [hx]; exact hj
  | acked _ hp => simp [hp, Phase.job?] at hj
  | abandoned _ hp => rwa [hp, Phase.cancel_job] at hj
  | crashed hp => simp [hp, Phase.job?] at hj

theorem Told.job {a : Option Answer} {x x' : Worker} {fx : Effects} (h : Told w sid a x x' fx)
    {j : Job} (hj : x'.phase.job? = some j) :
    x.phase.job? = some j ∨ ∃ h, x.phase = .claiming h sid ∧ a = some (.job j) := by
  cases h with
  | claimed hx ha _ hp =>
    rw [hp] at hj
    obtain rfl := Option.some.inj hj
    exact .inr ⟨_, hx, ha⟩
  | unregistered hx ha _ hp =>
    rw [hp] at hj
    obtain rfl := Option.some.inj hj
    exact .inr ⟨_, hx, ha⟩
  | nothing _ _ hp => simp [hp, Phase.job?] at hj
  | unclaimed _ _ _ hp => simp [hp, Phase.job?] at hj
  | finished _ _ _ hp => simp [hp, Phase.job?] at hj
  | unfinished _ _ _ hp => simp [hp, Phase.job?] at hj
  | renewed hx _ hp => rw [hp] at hj; rw [hx]; exact .inl hj
  | unrenewed hx _ hp => rw [hp] at hj; rw [hx]; exact .inl hj

/-- Only a committed claim answers with a job, and it is the one it was asked for. -/
theorem Kept.claimed {m m' : MySQL} (hk : Kept cfg m) {how : Closing} {c : Closed Answer Op}
    {y : Conn} {id : JobId} {g : ℕ} {j : Job} (hc : m.close sid how = some (m', c))
    (hy : m.sessions sid = some y) (hop : y.op = .claim id g w)
    (ha : answerOf c = some (.job j)) :
    j.leaseOwner = w ∧ c = .committed (.claim j.id j.generation w) (.job j) := by
  rcases hk.ends hc hy hop (fun _ => rfl) with
    ⟨a, lo, hi, rfl, hchange, -⟩ | ⟨a, hi, rfl, -, hwhy, -⟩ | ⟨rfl, -⟩
  · obtain rfl := Option.some.inj ha
    generalize m.store.view id = v at hchange
    generalize m'.store.view id = v' at hchange
    cases hchange with
    | claimed hid hr =>
      obtain rfl := hr.generation_eq
      obtain rfl := hid
      exact ⟨rfl, rfl⟩
  · obtain rfl := Option.some.inj ha
    cases hwhy
  · simp [answerOf] at ha

/-- The step that gives worker `w` a new job in hand commits its claim. -/
theorem Turn.job {x' : Worker} {a : Action} {es : List Event} (h : Turn cfg s w x' a s' es)
    (hk : Kept cfg s.mysql) (hp : Paired none s) {j : Job} (hj : x'.phase.job? = some j) :
    (∃ x, s.workers w = some x ∧ x.phase.job? = some j) ∨
    ∃ sid how db, a = .close sid how ∧ j.leaseOwner = w ∧
      s.mysql.close sid how = some (db, .committed (.claim j.id j.generation w) (.job j)) := by
  cases h with
  | idle hw => exact .inl ⟨x', hw, hj⟩
  | started _ hx =>
    subst hx
    simp [Worker.start, Phase.job?] at hj
  | acted hw hx => exact .inl ⟨_, hw, hx.job hj⟩
  | @told x fx sid how db c _ hc hw hx =>
    rcases hx.job hj with hj | ⟨h, hx, ha⟩
    · exact .inl ⟨_, hw, hj⟩
    -- The worker has waited for this claim.
    · have hwait : s.Waits sid (.claim h.jobId h.generation w) (.worker w) :=
        ⟨x, hw, by rw [hx]; exact .claim⟩
      obtain ⟨y, hy, x', hw', hwait⟩ := (hp.waited _ _ _ hwait).resolve_left (by simp)
      obtain rfl := Option.some.inj (hw.symm.trans hw')
      rw [hx] at hwait
      generalize hop : y.op = op at hwait
      cases hwait
      obtain ⟨hown, rfl⟩ := hk.claimed hc hy hop ha
      exact .inr ⟨sid, how, db, rfl, hown, hc⟩
  | lost hw hx =>
    rcases hx.job hj with hj | ⟨h, -, ha⟩
    · exact .inl ⟨_, hw, hj⟩
    · cases ha

/-- Two transactions that are about to commit on one job are the same. -/
theorem Kept.exclusive {m : MySQL} (hk : Kept cfg m) {sid sid' : Sid} {y y' : Conn} {a a' : Answer}
    {id : JobId} (hy : m.sessions sid = some y) (hr : y.rest = .commit a) (hop : y.op ≠ .dispatch)
    (hid : about y.op a = some id) (hy' : m.sessions sid' = some y') (hr' : y'.rest = .commit a')
    (hop' : y'.op ≠ .dispatch) (hid' : about y'.op a' = some id) : sid = sid' :=
  Option.some.inj ((hk.locked hy hr hop hid).symm.trans (hk.locked hy' hr' hop' hid'))

/-- A statement of a `Claim` or a `Finish` only runs while its worker waits for it. -/
theorem Paired.phase (h : Paired none s) {y : Conn} (hy : s.mysql.sessions sid = some y)
    (hatt : y.attended = true) : (∀ w id g, y.op = .claim id g w →
      ∃ x h, s.workers w = some x ∧ x.phase = .claiming h sid) ∧
    ∀ j e message delay, y.op = .finish j e message delay →
      ∃ w x h, s.workers w = some x ∧ x.phase = .finishing h j sid := by
  refine ⟨fun w id g hop => ?_, fun j e message delay hop => ?_⟩ <;>
  · have hw := (h.attended sid y hy hatt (by rw [hop]; rfl)).1
    rw [hop] at hw
    cases hc : sid.party.client with
    | worker w' =>
      rw [hc] at hw
      obtain ⟨x, hx, hw⟩ := hw
      generalize hphase : x.phase = p at hw
      cases hw
      first
        | exact ⟨x, _, hx, hphase⟩
        | exact ⟨_, x, _, hx, hphase⟩
    | dispatcher d =>
      rw [hc] at hw
      cases hw.1
    | call c =>
      rw [hc] at hw
      obtain ⟨x, -, hw⟩ := hw
      cases hw

theorem commit_session {m m' : MySQL} {how : Closing} {op : Op} {a : Answer}
    (hc : m.close sid how = some (m', .committed op a)) :
    ∃ y, m.sessions sid = some y ∧ y.op = op ∧ y.rest = .commit a := by
  obtain ⟨x, hx, ⟨r, hr, heq, -⟩ | ⟨r, -, heq, -⟩ | ⟨heq, -⟩⟩ := Server.close_cases hc
  · obtain ⟨rfl, rfl⟩ : op = x.op ∧ a = r := by simpa using heq
    exact ⟨x, hx, rfl, hr⟩
  · cases heq
  · cases heq

theorem Stepped.committed {a : Action} {es : List Event} (h : Stepped cfg s a s' es) {op : Op}
    {r : Answer} (hmem : (sid, .committed op r) ∈ closings es) :
    (∃ how, a = .close sid how) ∧
      ∃ y, s.mysql.sessions sid = some y ∧ y.op = op ∧ y.rest = .commit r := by
  rcases h.closings_cases with hnil | ⟨sid', how, db, c, rfl, hc, hone⟩
  · simp [hnil] at hmem
  · obtain ⟨rfl, rfl⟩ : sid = sid' ∧ .committed op r = c := by simpa [hone] using hmem
    exact ⟨⟨how, rfl⟩, commit_session hc⟩

/-- A transaction that is about to commit was so before the step, or ran its last
    statement in it. -/
theorem Stepped.ready {a : Action} {es : List Event} (h : Stepped cfg s a s' es)
    (hp : Paired none s) (hk : Kept cfg s.mysql) {y : Conn} {r : Answer}
    (hy : s'.mysql.sessions sid = some y) (hr : y.rest = .commit r) (hop : y.op ≠ .dispatch) :
    ∃ y', s.mysql.sessions sid = some y' ∧ y'.op = y.op ∧ (y'.rest = .commit r ∨
      y'.attended = true ∧ s'.workers = s.workers ∧ closings es = []) := by
  cases h.continues hp hy with
  | stays hy' hop' _ hrest => exact ⟨_, hy', hop'.symm, .inl (hrest ▸ hr)⟩
  | runs ha hy' hop' _ hatt =>
    subst ha
    cases h with
    | exec => exact ⟨_, hy', hop'.symm, .inr ⟨hatt, rfl, rfl⟩⟩
  | @answered y' o next _ _ hy' hop' _ hrest =>
    -- Only a dispatch waits for an answer.
    obtain ⟨n, H, hrun, -⟩ := hk.isolated.runs sid y' hy'
    have := Exec.silent hrun (Op.script_silent cfg (hop' ▸ hop))
    rw [hrest] at this
    exact absurd this id
  | opened _ _ hrest =>
    rw [hr] at hrest
    cases hop' : y.op <;> rw [hop'] at hrest <;> cases hrest

theorem Fenced.step {es es' : List Event} {a : Action} (h : Fenced es s) (hk : Kept cfg s.mysql)
    (hp : Paired none s) (hs : Stepped cfg s a s' es') : Fenced (es ++ es') s' := by
  constructor
  · intro w x' j hw hj
    rcases (hs.turn hw).job hk hp hj with ⟨x, hw, hj⟩ | ⟨_, _, _, -, hown, -⟩
    · exact h.owner w x j hw hj
    · exact hown
  · intro w x' j hw hj
    rcases (hs.turn hw).job hk hp hj with ⟨x, hw, hj⟩ | ⟨sid, how, db, rfl, rfl, hc⟩
    · refine (h.latest w x j hw hj).append fun sid g r hmem => ?_
      obtain ⟨-, y, hy, hop, hr⟩ := hs.committed hmem
      exact h.clear w x j sid y g r hw hj hy (h.owner w x j hw hj ▸ hop) hr
    · obtain ⟨_, _, hc', hone, -⟩ := hs.closing
      obtain ⟨rfl, rfl⟩ := Prod.mk.inj (Option.some.inj (hc.symm.trans hc'))
      refine ⟨history j.id (closings es), [], ?_, by simp⟩
      rw [closings_append, history_append, hone]
      simp [history, committed?, about]
  · intro w x' j sid y' g r hw hj hy hop hr
    obtain ⟨y, hy', hop', hready⟩ := hs.ready hp hk hy hr (by simp [hop])
    rw [hop] at hop'
    rcases (hs.turn hw).job hk hp hj with ⟨x, hw', hj'⟩ | ⟨sid', how, db, rfl, rfl, hc⟩
    · rcases hready with hr' | ⟨hatt, hworkers, -⟩
      · exact h.clear w x j sid y g r hw' hj' hy' hop' hr'
      · -- The statement ran for a worker that was claiming, not for one with a job.
        obtain ⟨z, hd, hz, hphase⟩ := (hp.phase hy' hatt).1 w j.id g hop'
        obtain rfl := Option.some.inj (hw'.symm.trans hz)
        simp [hphase, Phase.job?] at hj'
    · -- The claim that was just committed held the row.
      obtain ⟨z, hz, hzop, hzr⟩ := commit_session hc
      obtain ⟨_, _, hc', hone, -⟩ := hs.closing
      rcases hready with hr' | ⟨-, -, hnil⟩
      · have hsid := hk.exclusive hz hzr (by simp [hzop]) (by rw [hzop]; rfl) hy' hr'
          (by simp [hop']) (by rw [hop']; rfl)
        subst hsid
        rw [hs.closed hp] at hy
        cases hy
      · simp [hnil] at hone
  · intro sid y' j e message delay r hy hop hr
    obtain ⟨y, hy', hop', hready⟩ := hs.ready hp hk hy hr (by simp [hop])
    rw [hop] at hop'
    rcases hready with hr' | ⟨hatt, hworkers, hnil⟩
    -- A claim that commits meanwhile would hold the row, too.
    · refine (h.final sid y j e message delay r hy' hop' hr').append fun sid' g a hmem => ?_
      obtain ⟨-, z, hz, hzop, hzr⟩ := hs.committed hmem
      obtain rfl := hk.exclusive hz hzr (by simp [hzop]) (by rw [hzop]; rfl) hy' hr'
        (by simp [hop']) (by rw [hop']; rfl)
      obtain rfl := Option.some.inj (hz.symm.trans hy')
      simp [hzop] at hop'
    -- The `Finish` has just run its last statement, for a worker that has the job in hand.
    · obtain ⟨w, x, hd, hx, hphase⟩ := (hp.phase hy' hatt).2 j e message delay hop'
      refine (h.latest w x j hx (by rw [hphase]; rfl)).append fun sid' g a hmem => ?_
      simp [hnil] at hmem

theorem Run.fenced {s₀ : State} {es : List Event} (h : Run cfg s₀ es s) (h₀ : Initial s₀) :
    Fenced es s := by
  induction h with
  | refl => exact ⟨by simp [h₀.workers], by simp [h₀.workers], by simp [h₀.workers],
      by simp [h₀.sessions]⟩
  | step h hs ih => exact ih.step (h.kept h₀) (h.paired h₀) (step_cases hs)

/-! ## What a `Finish` follows -/

/-- The last of its kind in a list is where it is. -/
theorem last_split {α : Type} {P : α → Prop} {l₁ l₂ l₁' l₂' : List α} {x x' : α}
    (h : l₁ ++ x :: l₂ = l₁' ++ x' :: l₂') (hx : P x) (hx' : P x') (h₂ : ∀ y ∈ l₂, ¬ P y)
    (h₂' : ∀ y ∈ l₂', ¬ P y) : l₁ = l₁' ∧ x = x' ∧ l₂ = l₂' := by
  rcases List.append_eq_append_iff.1 h with ⟨l, rfl, hl⟩ | ⟨l, rfl, hl⟩
  · cases l with
    | nil => exact ⟨by simp, List.cons.inj hl⟩
    | cons y l =>
      obtain ⟨rfl, rfl⟩ := List.cons.inj hl
      exact absurd hx' (h₂ x' (by simp))
  · cases l with
    | nil =>
      obtain ⟨rfl, rfl⟩ := List.cons.inj hl
      exact ⟨by simp, rfl, rfl⟩
    | cons y l =>
      obtain ⟨rfl, rfl⟩ := List.cons.inj hl
      exact absurd hx (h₂' x (by simp))

/-- The latest claim of a worker is the last that decided on its job, if its row
    still says that it belongs to the worker. -/
theorem Run.attempt {s₀ : State} {es : List Event} (h : Run cfg s₀ es s) (h₀ : Initial s₀) {j : Job}
    (hl : Latest es j) {r : JobRow} (hr : s.mysql.store.job? j.id = some r)
    (hp : r.status = .processing) (hown : r.leaseOwner = some j.leaseOwner) :
    r.In j ∧ ∃ h₁ h₂, history j.id (closings es) =
      h₁ ++ (.claim j.id j.generation j.leaseOwner, .job j) :: h₂ ∧
      ∀ x ∈ h₂, decides x = false := by
  obtain ⟨h₁, h₂, heq, hh₂⟩ := hl
  rcases (h.life h₀ j.id).attempt r hr hp with hnone | ⟨h₁', j', h₂', heq', hh₂', hin⟩
  · have := hnone (.claim j.id j.generation j.leaseOwner, .job j) (by simp [heq])
    cases this
  · have howner : j'.leaseOwner = j.leaseOwner :=
      Option.some.inj (hin.leaseOwner.symm.trans hown)
    have hsplit := last_split (P := fun x => ∃ id g a, x = (.claim id g j.leaseOwner, a))
      (heq.symm.trans heq') ⟨_, _, _, rfl⟩ ⟨j.id, j'.generation, .job j', by rw [howner]⟩
      (fun x hx ⟨id, g, a, hxa⟩ => hh₂ x hx id g a hxa) fun x hx ⟨id, g, a, hxa⟩ => by
        have := hh₂' x hx
        rw [hxa] at this
        cases this
    obtain ⟨rfl, hjj, rfl⟩ := hsplit
    obtain rfl : j = j' := by simpa using (Prod.mk.inj hjj).2
    exact ⟨hin, h₁, h₂, heq, hh₂'⟩

/-- A `Finish` that commits follows the claim of its job, and nothing was decided in
    between. -/
theorem Run.finish {s₀ : State} {es : List Event} (h : Run cfg s₀ es s) (h₀ : Initial s₀)
    {how : Closing} {db : MySQL} {j : Job} {e : Ending} {message : String} {delay : ℕ} {a : Answer}
    (hc : s.mysql.close sid how = some (db, .committed (.finish j e message delay) a)) :
    (∃ r, s.mysql.store.job? j.id = some r ∧ r.status = .processing ∧ r.In j) ∧
    ∃ h₁ h₂, history j.id (closings es) =
      h₁ ++ (.claim j.id j.generation j.leaseOwner, .job j) :: h₂ ∧
      ∀ x ∈ h₂, decides x = false := by
  obtain ⟨y, hy, hop, hr⟩ := commit_session hc
  have hlatest := (h.fenced h₀).final sid y j e message delay a hy hop hr
  obtain ⟨r, t, hrow, hown⟩ : ∃ r t, s.mysql.store.job? j.id = some r ∧ r.ownedBy j t = true := by
    obtain ⟨lo, hi, hchange, -⟩ := (h.kept h₀).changes hc rfl
    have hrow {r : JobRow} {logs : List LogRow} {out : List OutboxRow}
        (hv : s.mysql.store.view j.id = ⟨some r, logs, out⟩) :
        s.mysql.store.job? j.id = some r := congrArg JobView.row hv
    generalize hv : s.mysql.store.view j.id = v at hchange
    generalize db.store.view j.id = v' at hchange
    cases hchange with
    | finished _ _ _ hown => exact ⟨_, _, hrow hv, hown⟩
    | retried _ _ hown => exact ⟨_, _, hrow hv, hown⟩
  obtain ⟨-, hp, howner, -⟩ := ownedBy_iff.1 hown
  obtain ⟨hin, hsplit⟩ := h.attempt h₀ hlatest hrow hp howner
  exact ⟨⟨r, hrow, hp, hin⟩, hsplit⟩

/-- Every `Finish` in the history directly follows the claim of its job, renewals and
    dispatches apart. -/
def Orderly (id : JobId) (h : List (Op × Answer)) : Prop :=
  ∀ h₁ j e message delay a h₂, h = h₁ ++ (.finish j e message delay, a) :: h₂ →
    ∃ h₀ mid, h₁ = h₀ ++ (.claim id j.generation j.leaseOwner, .job j) :: mid ∧
      ∀ x ∈ mid, decides x = false

theorem Run.orderly {s₀ : State} {es : List Event} (h : Run cfg s₀ es s) (h₀ : Initial s₀)
    (id : JobId) : Orderly id (history id (closings es)) := by
  induction h with
  | refl => intro h₁ j e message delay a h₂ heq; simp at heq
  | @step es es' s s' act h hs ih =>
    rw [closings_append, history_append]
    rcases (step_cases hs).closings_cases with hnil | ⟨sid, how, db, c, rfl, hc, hone⟩
    · simpa [hnil] using ih
    rw [hone]
    cases hx : committed? id (sid, c) with
    | none => simpa [history, hx] using ih
    | some x =>
      have hsnoc : history id [(sid, c)] = [x] := by simp [history, hx]
      rw [hsnoc]
      intro h₁ j e message delay a h₂ heq
      rcases List.eq_nil_or_concat h₂ with rfl | ⟨l, y, rfl⟩
      · -- The `Finish` is the one that has just committed.
        obtain ⟨rfl, hx'⟩ := List.append_inj' heq rfl
        obtain rfl : x = (.finish j e message delay, a) := by simpa using hx'
        obtain ⟨⟨sid', hmem⟩, habout⟩ := mem_history.1
          (show (Op.finish j e message delay, a) ∈ history id [(sid, c)] by simp [hsnoc])
        obtain ⟨-, rfl⟩ : sid' = sid ∧ .committed (.finish j e message delay) a = c := by
          simpa using hmem
        obtain rfl : j.id = id := Option.some.inj habout
        exact (h.finish h₀ hc).2
      · have : history id (closings es) = h₁ ++ (.finish j e message delay, a) :: l := by
          have : history id (closings es) ++ [x] =
              (h₁ ++ (.finish j e message delay, a) :: l) ++ [y] := by simpa using heq
          exact (List.append_inj' this rfl).1
        exact ih h₁ j e message delay a l this

/-- The transaction is a `Finish` for the job. -/
def Finishes (j : Job) (x : Op × Answer) : Prop :=
  ∃ e message delay, x.1 = .finish j e message delay

theorem claim_once {h₁ h₂ : List (Op × Answer)} {id : JobId} {g : ℕ} {w : WorkerId} {j : Job}
    (hn : (claims (h₁ ++ (.claim id g w, .job j) :: h₂)).Nodup) :
    (.claim id g w, .job j) ∉ h₂ := by
  intro hmem
  have hj : j ∈ claims h₂ := List.mem_filterMap.2 ⟨_, hmem, rfl⟩
  rw [claims_append, claims_cons] at hn
  exact (List.nodup_cons.1 (List.nodup_append.1 hn).2.1).1 hj

/-- A claim has at most one outcome. -/
theorem Orderly.once {id : JobId} {h h₁ h₂ : List (Op × Answer)} (ho : Orderly id h)
    (hn : (claims h).Nodup) {j : Job} {x : Op × Answer} (heq : h = h₁ ++ x :: h₂)
    (hx : Finishes j x) : ∀ y ∈ h₂, ¬ Finishes j y := by
  rintro ⟨_, a'⟩ hy ⟨e', message', delay', hy'⟩
  obtain ⟨op, a⟩ := x
  obtain ⟨e, message, delay, rfl⟩ : ∃ e message delay, op = .finish j e message delay := hx
  cases hy'
  obtain ⟨l, l', rfl⟩ := List.append_of_mem hy
  subst heq
  obtain ⟨k₀, mid, rfl, -⟩ := ho h₁ j e message delay a _ rfl
  -- The second `Finish` follows the claim of the same job, too, which is the only one.
  obtain ⟨k₁, mid', heq, hmid'⟩ := ho (k₀ ++ (.claim id j.generation j.leaseOwner, .job j) ::
    (mid ++ (.finish j e message delay, a) :: l)) j e' message' delay' a' l' (by simp)
  have hn' : (claims (k₀ ++ (.claim id j.generation j.leaseOwner, .job j) ::
      (mid ++ (.finish j e message delay, a) :: l))).Nodup := by
    have : (claims (k₀ ++ (.claim id j.generation j.leaseOwner, .job j) ::
        (mid ++ (.finish j e message delay, a) :: l) ++
        (.finish j e' message' delay', a') :: l')).Nodup := by simpa using hn
    rw [claims_append] at this
    exact (List.nodup_append.1 this).1
  have hone := claim_once hn'
  obtain ⟨-, -, rfl⟩ := last_split (P := fun x => x = (.claim id j.generation j.leaseOwner, .job j))
    heq rfl rfl (fun x hx hxa => hone (hxa ▸ hx)) fun x hx hxa => by
      have := hmid' x hx
      rw [hxa] at this
      cases this
  have := hmid' (.finish j e message delay, a) (by simp)
  cases this

/-! ## Attempts that are over -/

/-- After the claim of `j`, another transaction has decided on its job. -/
def Superseded (es : List Event) (j : Job) : Prop :=
  ∃ h₁ h₂, history j.id (closings es) =
    h₁ ++ (.claim j.id j.generation j.leaseOwner, .job j) :: h₂ ∧ ∃ x ∈ h₂, decides x = true

/-- The row does not belong to an attempt that is over, as far as its worker can tell. -/
theorem Run.not_owned {s₀ : State} {es : List Event} (h : Run cfg s₀ es s) (h₀ : Initial s₀)
    {j : Job} (hl : Latest es j) (hsup : Superseded es j) {r : JobRow}
    (hr : s.mysql.store.job? j.id = some r) (t : ℕ) : r.ownedBy j t = false := by
  by_contra hown
  obtain ⟨-, hp, howner, -⟩ := ownedBy_iff.1 (Bool.eq_true_of_not_eq_false hown)
  obtain ⟨-, h₁, h₂, heq, hh₂⟩ := h.attempt h₀ hl hr hp howner
  obtain ⟨h₁', h₂', heq', x, hx, hdec⟩ := hsup
  have hn := ((h.life h₀ j.id).claims_nodup).1
  obtain ⟨-, -, rfl⟩ := last_split
    (P := fun x => x = (.claim j.id j.generation j.leaseOwner, .job j))
    (heq.symm.trans heq') rfl rfl
    (fun y hy hyj => claim_once (heq ▸ hn) (hyj ▸ hy))
    fun y hy hyj => claim_once (heq' ▸ hn) (hyj ▸ hy)
  exact absurd (hh₂ x hx) (by simp [hdec])

/-- Whoever waits for a session is told of its end. -/
theorem Delivered.told {a : Option Answer} {es : List Event} {x : Worker} {op : Op}
    (hd : Delivered cfg s sid a s' es) (hw : s.workers w = some x) (hx : x.phase.Waits w sid op)
    (hparty : sid.party.client = .worker w) : ∃ x' fx, Told w sid a x x' fx ∧ es = fx.events := by
  have hmine : sid.party = .worker w ∨ sid.party = .beat w := by
    cases hp : sid.party <;> simp_all [Party.client]
  cases hd with
  | nobody hnone => exact absurd (hnone w x hmine hw) (hx.returned a)
  | @worker w' x' y fx hparty' hw' hy =>
    obtain rfl : w = w' := by
      rcases hmine with hm | hm <;> rcases hparty' with hp | hp <;> simp_all
    obtain rfl := Option.some.inj (hw.symm.trans hw')
    exact ⟨y, fx, returned_cases hy, rfl⟩
  | dispatcher hp => rcases hmine with hm | hm <;> simp [hm] at hp
  | call hp => rcases hmine with hm | hm <;> simp [hm] at hp

/-- A `Renew` or a `Finish` that finds no row of its own loses the lease, and changes
    nothing. -/
theorem Kept.lost {m m' : MySQL} (hk : Kept cfg m) {how : Closing} {c : Closed Answer Op} {y : Conn}
    {j : Job} (hc : m.close sid how = some (m', c)) (hy : m.sessions sid = some y)
    (hop : y.op = .renew j ∨ ∃ e message delay, y.op = .finish j e message delay)
    (hnot : ∀ r, m.store.job? j.id = some r → ∀ t, r.ownedBy j t = false) :
    m'.store = m.store ∧
      (answerOf c = some (.error .lostLease) ∨ answerOf c = none ∧ how = .fail) := by
  -- A change would be one of a row that the job owns.
  have hrow {id : JobId} {r : JobRow} {logs : List LogRow} {out : List OutboxRow} {t : ℕ}
      (hv : m.store.view id = ⟨some r, logs, out⟩) (hj : j.id = id) (hown : r.ownedBy j t = true) :
      False := by
    have : m.store.job? j.id = some r := by rw [hj]; exact congrArg JobView.row hv
    exact absurd hown (by simp [hnot r this t])
  have habout : ∀ a, about y.op a = some j.id := by
    rcases hop with hop | ⟨e, message, delay, hop⟩ <;> simp [hop, about]
  rcases hk.ends hc hy rfl habout with
    ⟨a, lo, hi, rfl, hchange, -⟩ | ⟨a, hi, rfl, hstore, hwhy, -⟩ | ⟨rfl, hstore, hfail⟩
  · generalize hv : m.store.view j.id = v at hchange
    generalize m'.store.view j.id = v' at hchange
    rcases hop with hop | ⟨e, message, delay, hop⟩ <;> rw [hop] at hchange <;> cases hchange
    · exact (hrow hv ‹_› ‹_›).elim
    · exact (hrow hv ‹_› ‹_›).elim
    · exact (hrow hv ‹_› ‹_›).elim
  · refine ⟨hstore, .inl ?_⟩
    rcases hop with hop | ⟨e, message, delay, hop⟩ <;> rw [hop] at hwhy
    · cases hwhy
      rfl
    · cases hwhy with
      | finishLost => rfl
      | retryTaken hr hown => exact absurd hown (by simp [hnot _ hr _])
      | retryOutOfRange hr hown => exact absurd hown (by simp [hnot _ hr _])
  · exact ⟨hstore, .inr ⟨rfl, hfail⟩⟩

/-- In an attempt that is over, `Renew` and `Finish` change nothing and lose the
    lease, unless they fail otherwise. -/
theorem Run.superseded {s₀ : State} {es es' : List Event} (h : Run cfg s₀ es s) (h₀ : Initial s₀)
    {x : Worker} {op : Op} {j : Job} (hw : s.workers w = some x) (hx : x.phase.Waits w sid op)
    (hj : x.phase.job? = some j) (hsup : Superseded es j) {how : Closing}
    (hstep : s.step cfg (.close sid how) = some (s', es')) :
    s'.mysql.store = s.mysql.store ∧ ∃ n m a, .reported w n m a ∈ es' ∧
      (a = some (.error .lostLease) ∨
        a = none ∧ (how = .fail ∨ ∃ h, x.phase.handle? = some h ∧ h.done = true)) := by
  have hs := step_cases hstep
  have hp := h.paired h₀
  have hk := h.kept h₀
  have hnot {r : JobRow} (hr : s.mysql.store.job? j.id = some r) (t : ℕ) :
      r.ownedBy j t = false := h.not_owned h₀ ((h.fenced h₀).latest w x j hw hj) hsup hr t
  have hparty := (hp.party (.worker w) sid op ⟨x, hw, hx⟩).1
  obtain ⟨y, hy, x', hw', hwait⟩ :=
    (hp.waited (.worker w) sid op ⟨x, hw, hx⟩).resolve_left (by simp)
  obtain rfl := Option.some.inj (hw.symm.trans hw')
  -- A worker with the job in hand waits for a `Renew` or the `Finish`.
  have hop : y.op = .renew j ∨ ∃ e message delay, y.op = .finish j e message delay := by
    generalize y.op = op' at hwait
    generalize x.phase = p at hwait hj
    cases hwait with
    | claim => cases hj
    | finish => cases hj; exact .inr ⟨_, _, _, rfl⟩
    | renew => cases hj; exact .inl rfl
  obtain ⟨db, c, hc, -, hstore⟩ := hs.closing
  obtain ⟨hsame, hans⟩ := hk.lost hc hy hop fun r hr => hnot hr
  refine ⟨hstore.trans hsame, ?_⟩
  cases hs with
  | close hc' hd =>
    obtain ⟨rfl, rfl⟩ := Prod.mk.inj (Option.some.inj (hc.symm.trans hc'))
    obtain ⟨x', fx, htold, rfl⟩ := hd.told hw hwait hparty
    cases htold with
    | claimed hx' => simp [hx', Phase.job?] at hj
    | unregistered hx' => simp [hx', Phase.job?] at hj
    | nothing hx' => simp [hx', Phase.job?] at hj
    | unclaimed hx' => simp [hx', Phase.job?] at hj
    | finished _ ha => rcases hans with hans | ⟨hans, -⟩ <;> simp [hans] at ha
    | @unfinished h' _ a' hx' ha _ _ he =>
      refine ⟨h'.number, .finish, a', by simp [he], ?_⟩
      rcases ha with rfl | ⟨rfl, hdone⟩
      · exact hans.imp_right fun h => ⟨h.1, .inl h.2⟩
      · exact .inr ⟨rfl, .inr ⟨h', by rw [hx']; rfl, hdone⟩⟩
    | renewed _ ha => rcases hans with hans | ⟨hans, -⟩ <;> simp [hans] at ha
    | @unrenewed h' _ _ _ _ _ he =>
      exact ⟨h'.number, .renew, _, by simp [he], hans.imp_right fun h => ⟨h.1, .inl h.2⟩⟩

end Steps

/-! ## Outcomes -/

/-- In every run, a `Finish` that commits follows the claim that returned its job,
    which is the last successful one, with no requeue and no other `Finish` since;
    no claim has two outcomes; and once another transaction has decided on its job,
    a worker gets `ErrLostLease` from `Renew` and from `Finish` (or no answer at
    all), and nothing changes. -/
theorem outcome_fencing {cfg : Config} {s₀ s : State} {es : List Event} (h₀ : Initial s₀)
    (h : Run cfg s₀ es s) (id : JobId) :
    (claims (history id (closings es))).Nodup ∧
    (∀ h₁ j e message delay a h₂,
      history id (closings es) = h₁ ++ (.finish j e message delay, a) :: h₂ →
      (∃ h₀ mid, h₁ = h₀ ++ (.claim id j.generation j.leaseOwner, .job j) :: mid ∧
        ∀ x ∈ mid, decides x = false) ∧
      (∀ x ∈ h₁, ¬ Finishes j x) ∧ ∀ x ∈ h₂, ¬ Finishes j x) ∧
    ∀ w x sid op j how s' es', s.workers w = some x → x.phase.Waits w sid op →
      x.phase.job? = some j → Superseded es j → s.step cfg (.close sid how) = some (s', es') →
      s'.mysql.store = s.mysql.store ∧ ∃ n m a, .reported w n m a ∈ es' ∧
        (a = some (.error .lostLease) ∨
          a = none ∧ (how = .fail ∨ ∃ h, x.phase.handle? = some h ∧ h.done = true)) := by
  have horder := h.orderly h₀ id
  have hn := ((h.life h₀ id).claims_nodup).1
  refine ⟨hn, fun h₁ j e message delay a h₂ heq =>
    ⟨horder h₁ j e message delay a h₂ heq, ?_, ?_⟩, ?_⟩
  · intro x hx hfin
    obtain ⟨l, l', rfl⟩ := List.append_of_mem hx
    exact horder.once hn (by simpa using heq) hfin (.finish j e message delay, a) (by simp)
      ⟨e, message, delay, rfl⟩
  · exact horder.once hn heq ⟨e, message, delay, rfl⟩
  · intro w x sid op j how s' es' hw hx hj hsup hstep
    exact h.superseded h₀ hw hx hj hsup hstep

/-- The first job is claimed and completed. -/
theorem outcome_fencing_first :
    let es := (State.after (firstClaim ++ finishing "w" 4 0 .ok)).2
    (history firstJob (closings es)).countP (·.1 matches .finish _ _ _ _) = 1 ∧
    ∀ h₁ j e message delay a h₂,
      history firstJob (closings es) = h₁ ++ (.finish j e message delay, a) :: h₂ →
      (∃ h₀ mid, h₁ = h₀ ++ (.claim firstJob j.generation j.leaseOwner, .job j) :: mid ∧
        ∀ x ∈ mid, decides x = false) ∧
      (∀ x ∈ h₁, ¬ Finishes j x) ∧ ∀ x ∈ h₂, ¬ Finishes j x :=
  ⟨by decide, (outcome_fencing .fresh (Run.play _ _ _) firstJob).2.1⟩

end ScaleQueue
