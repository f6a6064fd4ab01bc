import ScaleQueue.Turns

/-!
# What transactions do

A committed transaction changes what the tables say about one job (`Change`), and
an aborted one had a reason to (`Refused`). Both are read off the scripts, run
from their first statement to their last against one store (`exec_outcome`): the
locks make a transaction such a run, whatever else commits meanwhile.
-/

namespace ScaleQueue

open Locking

/-! ## The past of a store -/

/-- What holds of the tables about a job in every reachable state: the log and the
    outbox are those of an existing job, and the outbox is not ahead of it. -/
structure JobView.Sound (v : JobView) : Prop where
  absent : v.row = none → v.logs = [] ∧ v.outbox = []
  one_le : ∀ r ∈ v.row, 1 ≤ r.generation
  le_maxInt : ∀ r ∈ v.row, r.generation ≤ maxInt
  generation_le : ∀ r ∈ v.row, ∀ o ∈ v.outbox, o.place.generation ≤ r.generation

/-- `r'` is a row that `r` may become: its request stays, it does not go back to an
    earlier generation, and it is not resumed within one. -/
structure JobRow.Precedes (r r' : JobRow) : Prop where
  requestKey : r'.requestKey = r.requestKey
  requestHash : r'.requestHash = r.requestHash
  ages : r.generation < r'.generation ∨
    r.generation = r'.generation ∧ (r.terminal → r'.terminal)

/-- A job stays, and its row is one that the row before may become. -/
def Ages (before after : Option JobRow) : Prop := ∀ r ∈ before, ∃ r' ∈ after, r.Precedes r'

theorem JobRow.Precedes.refl (r : JobRow) : r.Precedes r := ⟨rfl, rfl, .inr ⟨rfl, fun h => h⟩⟩

theorem JobRow.Precedes.trans {r r' r'' : JobRow} (h : r.Precedes r') (h' : r'.Precedes r'') :
    r.Precedes r'' := by
  refine ⟨h'.requestKey.trans h.requestKey, h'.requestHash.trans h.requestHash, ?_⟩
  rcases h.ages with hlt | ⟨heq, ht⟩
  · exact .inl (Nat.lt_of_lt_of_le hlt (h'.ages.elim Nat.le_of_lt fun h => Nat.le_of_eq h.1))
  · exact h'.ages.imp (heq ▸ ·) fun h => ⟨heq.trans h.1, h.2 ∘ ht⟩

theorem Ages.refl (v : Option JobRow) : Ages v v := fun r hr => ⟨r, hr, .refl r⟩

theorem Ages.trans {u v w : Option JobRow} (h : Ages u v) (h' : Ages v w) : Ages u w := by
  intro r hr
  obtain ⟨r', hr', hrr'⟩ := h r hr
  obtain ⟨r'', hr'', hrr''⟩ := h' r' hr'
  exact ⟨r'', hr'', hrr'.trans hrr''⟩

/-- `v` is a store that `s` may have come from. -/
def Past (v s : Tables) : Prop := (∀ id, (v.view id).Sound) ∧ ∀ id, Ages (v.job? id) (s.job? id)

/-- What a statement may see without a lock, whatever it finds free. -/
def Looks (_ : Env) (v : Tables) (_ : Key → Bool) (s : Tables) : Prop := Past v s

/-- The log entries protected by the lock are older than the statement. -/
def Logged (e : Env) : Key → Tables → Prop
  | .job id, t => ∀ l ∈ t.logsOf id, l.id < e.serial
  | _, _ => True

theorem Logged.congr {e : Env} {k : Key} {t t' : Tables} (h : Agree k t t') (hl : Logged e k t) :
    Logged e k t' := by
  cases k with
  | job id =>
    have : Tables.AgreeOn (.job id) t t' := h
    exact fun l hl' => hl l (this.2 ▸ hl')
  | _ => trivial

/-! ## Changes -/

/-- `Claim`, at `now`, found a row that it either claims or declares dead. -/
structure JobRow.Claimable (generation now : ℕ) (r : JobRow) : Prop where
  generation_eq : r.generation = generation
  live : ¬ r.terminal
  inactive : ¬ (r.status = .processing ∧ r.active now)
  not_early : r.early now = false

/-- `n` is a new id for an entry of the log, drawn before `hi`. -/
def NewLog (n : ℕ) (logs : List LogRow) (hi : Env) : Prop := (∀ l ∈ logs, l.id < n) ∧ n < hi.serial

/-- The place is not taken in the outbox. -/
def Vacant (p : Place) (out : List OutboxRow) : Prop := ∀ o ∈ out, o.place ≠ p

/-- What a transaction that ran between `lo` and `hi` and committed with an answer
    does to what the tables say about the job `id`. -/
inductive Change (lease : ℕ) (id : JobId) (lo hi : Env) :
    Op → Answer → JobView → JobView → Prop
  | claimed {g owner r logs out t₁ t₂ t₃ n} (hid : r.id = id) (hr : r.Claimable g t₁)
      (hbudget : r.attemptCount < r.maxRetries + 1) (hmax : r.attemptCount + 1 ≤ maxInt)
      (hlo : lo.now ≤ t₁) (ht : t₁ ≤ t₂) (ht' : t₂ ≤ t₃) (hhi : t₃ ≤ hi.now)
      (hn : NewLog n logs hi) :
      Change lease id lo hi (.claim id g owner) (.job (r.toJob owner)) ⟨some r, logs, out⟩
        ⟨some (r.claim owner lease t₂),
          logs ++ [⟨n, id, some r.status, .processing, "Attempt claimed", some owner, seconds t₃⟩],
          out⟩
  | exhausted {g owner r logs out t₁ t₂ t₃ n} (hid : r.id = id) (hr : r.Claimable g t₁)
      (hbudget : r.maxRetries + 1 ≤ r.attemptCount)
      (hlo : lo.now ≤ t₁) (ht : t₁ ≤ t₂) (ht' : t₂ ≤ t₃) (hhi : t₃ ≤ hi.now)
      (hn : NewLog n logs hi) :
      Change lease id lo hi (.claim id g owner) (.noJob .exhausted) ⟨some r, logs, out⟩
        ⟨some (r.bury t₂),
          logs ++ [⟨n, id, some r.status, .dead, exhaustedMsg, some owner, seconds t₃⟩], out⟩
  | renewed {j r logs out t} (hid : r.id = id) (hj : j.id = id) (hr : r.ownedBy j t = true)
      (hchange : r.leaseUntil ≠ some (t + lease)) (hlo : lo.now ≤ t) (hhi : t ≤ hi.now) :
      Change lease id lo hi (.renew j) .done ⟨some r, logs, out⟩
        ⟨some (r.renew lease t), logs, out⟩
  | finished {j e message delay r logs out t₁ t₂ n} (hid : r.id = id) (hj : j.id = id)
      (he : e ≠ .pending) (hr : r.ownedBy j t₁ = true)
      (hlo : lo.now ≤ t₁) (ht : t₁ ≤ t₂) (hhi : t₂ ≤ hi.now) (hn : NewLog n logs hi) :
      Change lease id lo hi (.finish j e message delay) .done ⟨some r, logs, out⟩
        ⟨some (r.finish e.status message delay t₁),
          logs ++ [⟨n, id, some .processing, e.status, message, some j.leaseOwner, seconds t₂⟩],
          out⟩
  | retried {j message delay r logs out t₁ t₂ n m} (hid : r.id = id) (hj : j.id = id)
      (hr : r.ownedBy j t₁ = true) (hvacant : Vacant ⟨id, r.generation, r.attemptCount + 1⟩ out)
      (hmax : r.attemptCount + 1 ≤ maxInt)
      (hlo : lo.now ≤ t₁) (ht : t₁ ≤ t₂) (hhi : t₂ ≤ hi.now) (hn : NewLog n logs hi)
      (hm : m < hi.serial) :
      Change lease id lo hi (.finish j .pending message delay) .done ⟨some r, logs, out⟩
        ⟨some (r.finish .pending message delay t₁),
          logs ++ [⟨n, id, some .processing, .pending, message, some j.leaseOwner, seconds t₂⟩],
          out ++ [⟨m, ⟨id, r.generation, r.attemptCount + 1⟩, t₁ + delay, none⟩]⟩
  | published {o row logs out t₁ t₂} (ho : o ∈ out) (hdue : o.due t₁ = true)
      (hlo : lo.now ≤ t₁) (ht : t₁ ≤ t₂) (hhi : t₂ ≤ hi.now) :
      Change lease id lo hi .dispatch (.dispatched o.place) ⟨row, logs, out⟩
        ⟨row, logs, out.map (·.mark o.place o.id t₂)⟩
  | dropped {o r logs out t₁} (ho : o ∈ out) (hdue : o.due t₁ = true)
      (hover : o.place.generation < r.generation ∨
        o.place.generation = r.generation ∧ r.terminal)
      (hlo : lo.now ≤ t₁) (hhi : t₁ ≤ hi.now) :
      Change lease id lo hi .dispatch (.dispatched o.place) ⟨some r, logs, out⟩
        ⟨some r, logs, out.filter fun q => ¬(q.id = o.id ∧ q.place = o.place)⟩
  | created {j logs out t₁ t₂ t₃ n m} (hj : j.id = id) (hvacant : Vacant ⟨id, 1, 1⟩ out)
      (hlo : lo.now ≤ t₁) (ht : t₁ ≤ t₂) (ht' : t₂ ≤ t₃) (hhi : t₃ ≤ hi.now)
      (hn : NewLog n logs hi) (hm : m < hi.serial) :
      Change lease id lo hi (.createJob j) .done ⟨none, logs, out⟩
        ⟨some (j.row t₁), logs ++ [⟨n, id, none, .pending, "Job created", none, seconds t₂⟩],
          out ++ [⟨m, ⟨id, 1, 1⟩, t₃, none⟩]⟩
  | requeued {r logs out t₁ t₂ t₃ n m} (hid : r.id = id)
      (hstatus : r.status = .dead ∨ r.status = .failed) (hmax : r.generation + 1 ≤ maxInt)
      (hvacant : Vacant ⟨id, r.generation + 1, 1⟩ out)
      (hlo : lo.now ≤ t₁) (ht : t₁ ≤ t₂) (ht' : t₂ ≤ t₃) (hhi : t₃ ≤ hi.now)
      (hn : NewLog n logs hi) (hm : m < hi.serial) :
      Change lease id lo hi (.requeueJob id) .done ⟨some r, logs, out⟩
        ⟨some (r.requeue t₁),
          logs ++ [⟨n, id, some r.status, .pending, "Manually requeued via API", none, seconds t₂⟩],
          out ++ [⟨m, ⟨id, r.generation + 1, 1⟩, t₃, none⟩]⟩

theorem Change.of_eq {lease : ℕ} {id : JobId} {lo hi : Env} {op : Op} {a : Answer}
    {u u' v v' : JobView} (h : Change lease id lo hi op a v v') (hv : u = v) (hv' : u' = v') :
    Change lease id lo hi op a u u' := hv ▸ hv' ▸ h

/-- Why a transaction that ran between `lo` and `hi` was aborted with an answer. -/
inductive Refused (lease : ℕ) (s : Tables) (lo hi : Env) : Op → Answer → Prop
  | absent {id g owner} : s.job? id = none →
      Refused lease s lo hi (.claim id g owner) (.noJob .absent)
  | stale {id g owner r} : s.job? id = some r → (r.generation ≠ g ∨ r.terminal) →
      Refused lease s lo hi (.claim id g owner) (.noJob .stale)
  | busy {id g owner r t} : s.job? id = some r → r.generation = g → r.status = .processing →
      r.active t = true → lo.now ≤ t → t ≤ hi.now →
      Refused lease s lo hi (.claim id g owner) (.error .busy)
  | early {id g owner r t} : s.job? id = some r → r.generation = g → ¬ r.terminal →
      ¬ (r.status = .processing ∧ r.active t) → r.early t = true → lo.now ≤ t → t ≤ hi.now →
      Refused lease s lo hi (.claim id g owner) (.noJob .early)
  | claimOutOfRange {id g owner r t} : s.job? id = some r → r.Claimable g t →
      r.attemptCount < r.maxRetries + 1 → maxInt < r.attemptCount + 1 →
      Refused lease s lo hi (.claim id g owner) (.error .outOfRange)
  | renewLost {j t} : lo.now ≤ t → t ≤ hi.now →
      (∀ r ∈ s.job? j.id, r.ownedBy j t = true → r.leaseUntil = some (t + lease)) →
      Refused lease s lo hi (.renew j) (.error .lostLease)
  | finishLost {j e message delay t} : lo.now ≤ t → t ≤ hi.now →
      (∀ r ∈ s.job? j.id, r.ownedBy j t = false) →
      Refused lease s lo hi (.finish j e message delay) (.error .lostLease)
  | retryTaken {j message delay r t} : s.job? j.id = some r → r.ownedBy j t = true →
      ¬ Vacant ⟨j.id, r.generation, r.attemptCount + 1⟩ (s.outboxOf j.id) →
      Refused lease s lo hi (.finish j .pending message delay) (.error .dupEntry)
  | retryOutOfRange {j message delay r t} : s.job? j.id = some r → r.ownedBy j t = true →
      (maxInt < r.generation ∨ maxInt < r.attemptCount + 1) →
      Refused lease s lo hi (.finish j .pending message delay) (.error .outOfRange)
  | drained : Refused lease s lo hi .dispatch .drained
  | noRows {p : Place} : s.job? p.jobId = none → (s.out? p).isSome →
      Refused lease s lo hi .dispatch (.error .noRows)
  | publishFailed : Refused lease s lo hi .dispatch (.error .publishFailed)
  | duplicate {j now} : ¬ s.Admits (j.row now) →
      Refused lease s lo hi (.createJob j) (.error .dupEntry)
  | firstTaken {j} : s.job? j.id = none → ¬ Vacant ⟨j.id, 1, 1⟩ (s.outboxOf j.id) →
      Refused lease s lo hi (.createJob j) (.error .dupEntry)
  | notFound {id} : s.job? id = none →
      Refused lease s lo hi (.requeueJob id) (.error .jobNotFound)
  | notRequeueable {id r} : s.job? id = some r → r.status ≠ .dead → r.status ≠ .failed →
      Refused lease s lo hi (.requeueJob id) (.error .jobNotRequeueable)
  | requeueOutOfRange {id r} : s.job? id = some r → (r.status = .dead ∨ r.status = .failed) →
      maxInt < r.generation + 1 →
      Refused lease s lo hi (.requeueJob id) (.error .outOfRange)
  | requeueTaken {id r} : s.job? id = some r → (r.status = .dead ∨ r.status = .failed) →
      ¬ Vacant ⟨id, r.generation + 1, 1⟩ (s.outboxOf id) →
      Refused lease s lo hi (.requeueJob id) (.error .dupEntry)

/-! ## From scripts to changes -/

section Statements

variable {R : Env → Tables → (Key → Bool) → Tables → Prop} {F : Env → Key → Tables → Prop}
  {s : Tables} {b : Progress Tables Key Write OutboxRow Answer} {lo : Env} {W : List Write}
  {H : List Key}

theorem selectForUpdate_inv {id : JobId} {next : ℕ → Option JobRow → Tx}
    (h : Exec R F s ⟨lo, selectForUpdate id next, W, H⟩ b) (hb : b.rest.Ended) :
    ∃ (e : Env) (t : ℕ), lo.now ≤ e.now ∧ e.now ≤ t ∧ lo.serial ≤ e.serial ∧
      Exec R F s ⟨⟨t, e.serial + 1⟩, next e.now ((applyAll s W).job? id), W, .job id :: H⟩ b := by
  obtain ⟨e, t, h₁, h₂, h₃, -, hx⟩ := Exec.stmt_inv h hb
  rw [List.append_nil] at hx
  exact ⟨e, t, h₁, h₂, h₃, hx⟩

theorem updateJob_inv {id : JobId} {f : ℕ → JobUpdate} {next : Tx}
    (h : Exec R F s ⟨lo, updateJob id f next, W, H⟩ b) (hb : b.rest.Ended) :
    ∃ (e : Env) (t : ℕ), lo.now ≤ e.now ∧ e.now ≤ t ∧ lo.serial ≤ e.serial ∧
      Exec R F s ⟨⟨t, e.serial + 1⟩, next, W ++ [.updateJob id (f e.now)], .job id :: H⟩ b := by
  obtain ⟨e, t, h₁, h₂, h₃, -, hx⟩ := Exec.stmt_inv h hb
  exact ⟨e, t, h₁, h₂, h₃, hx⟩

theorem insertLog_inv {id : JobId} {fromStatus : Option JobStatus} {toStatus : JobStatus}
    {message : String} {workerId : Option WorkerId} {next : Tx}
    (h : Exec R F s ⟨lo, insertLog id fromStatus toStatus message workerId next, W, H⟩ b)
    (hb : b.rest.Ended) :
    ∃ (e : Env) (t : ℕ), lo.now ≤ e.now ∧ e.now ≤ t ∧ lo.serial ≤ e.serial ∧ F e (.job id) s ∧
      Exec R F s ⟨⟨t, e.serial + 1⟩, next, W ++ [.insertLog
        ⟨e.serial, id, fromStatus, toStatus, message, workerId, seconds e.now⟩],
        .job id :: H⟩ b := by
  obtain ⟨e, t, h₁, h₂, h₃, hF, hx⟩ := Exec.stmt_inv h hb
  exact ⟨e, t, h₁, h₂, h₃, hF _ List.mem_cons_self, hx⟩

/-- The update finds a row that meets its condition, or no row; and the
    transaction goes on with the number of rows it changed. -/
theorem updateWhere_inv {id : JobId} {cond : ℕ → JobRow → Bool} {f : ℕ → JobUpdate}
    {changes : ℕ → JobRow → Bool} {next : ℕ → Tx}
    (h : Exec R F s ⟨lo, updateWhere id cond f changes next, [], H⟩ b) (hb : b.rest.Ended) :
    ∃ (e : Env) (t : ℕ), lo.now ≤ e.now ∧ e.now ≤ t ∧ lo.serial ≤ e.serial ∧
      ((∃ r, s.job? id = some r ∧ cond e.now r = true ∧
          Exec R F s ⟨⟨t, e.serial + 1⟩, next (if changes e.now r then 1 else 0),
            [.updateJob id (f e.now)], .job id :: H⟩ b) ∨
        (∀ r ∈ s.job? id, cond e.now r = false) ∧
          Exec R F s ⟨⟨t, e.serial + 1⟩, next 0, [], .job id :: H⟩ b) := by
  obtain ⟨e, t, h₁, h₂, h₃, -, hx⟩ := Exec.stmt_inv h hb
  refine ⟨e, t, h₁, h₂, h₃, ?_⟩
  rw [applyAll_nil] at hx
  cases hrow : s.job? id with
  | none => exact .inr ⟨by simp, by simpa [hrow] using hx⟩
  | some r =>
    rw [hrow] at hx
    cases hc : cond e.now r with
    | true => exact .inl ⟨r, rfl, hc, by simpa [hc] using hx⟩
    | false => exact .inr ⟨by simpa using hc, by simpa [hc] using hx⟩

/-- The insertion finds its place vacant, or ends the transaction. -/
theorem insertOutbox_inv {p : Place} {availableAt : ℕ → ℕ} {next : Tx}
    (h : Exec R F s ⟨lo, insertOutbox p availableAt next, W, H⟩ b) (hb : b.rest.Ended) :
    ∃ (e : Env) (t : ℕ), lo.now ≤ e.now ∧ e.now ≤ t ∧ lo.serial ≤ e.serial ∧
      ((maxInt < p.generation ∨ maxInt < p.attempt) ∧
          b.rest = .abort (.error .outOfRange) ∨
        (applyAll s W).out? p ≠ none ∧ b.rest = .abort (.error .dupEntry) ∨
        p.generation ≤ maxInt ∧ p.attempt ≤ maxInt ∧ (applyAll s W).out? p = none ∧
          Exec R F s ⟨⟨t, e.serial + 1⟩, next,
            W ++ [.insertOutbox ⟨e.serial, p, availableAt e.now, none⟩], .out p :: H⟩ b) := by
  obtain ⟨e, t, h₁, h₂, h₃, -, hx⟩ := Exec.stmt_inv h hb
  refine ⟨e, t, h₁, h₂, h₃, ?_⟩
  split at hx
  · exact .inl ⟨‹_›, by rw [Exec.ended hx trivial]⟩
  · rename_i hmax
    split at hx
    · rename_i hsome
      exact .inr (.inl ⟨by simpa [Option.isSome_iff_ne_none] using hsome,
        by rw [Exec.ended hx trivial]⟩)
    · rename_i hnone
      have hnone : (applyAll s W).out? p = none := by simpa using hnone
      rw [not_or, Nat.not_lt, Nat.not_lt] at hmax
      rw [if_pos ⟨hnone, hmax⟩] at hx
      exact .inr (.inr ⟨hmax.1, hmax.2, hnone, hx⟩)

end Statements

/-- The job that a committed transaction is about. -/
def about : Op → Answer → Option JobId
  | .claim id _ _, _ => some id
  | .renew j, _ => some j.id
  | .finish j _ _ _, _ => some j.id
  | .dispatch, .dispatched p => some p.jobId
  | .createJob j, _ => some j.id
  | .requeueJob id, _ => some id
  | _, _ => none

/-- What a query reads. -/
def Op.reads (t : Tables) : Op → Option JobRow
  | .selectById id => t.job? id
  | .selectByRequestKey h => t.jobs.find? (·.requestKey = some h)
  | _ => none

/-- How a transaction that ran against `s` from `lo` has ended: it changes what the
    tables say about one job, it has only read, or it was refused. -/
inductive Outcome (lease : ℕ) (s : Tables) (lo : Env) (op : Op)
    (b : Progress Tables Key Write OutboxRow Answer) : Prop
  | changed (id : JobId) {r : Answer} (hend : b.rest = .commit r)
      (hlock : op = .dispatch ∨ .job id ∈ b.held)
      (hchange : Change lease id lo b.since op r (s.view id) ((applyAll s b.writes).view id))
      (hothers : ∀ id' ≠ id, (applyAll s b.writes).view id' = s.view id')
  | read {v : Tables} (hop : ∀ a, about op a = none) (hpast : Past v s)
      (hend : b.rest = .commit (.row (op.reads v))) (hw : b.writes = [])
  | refused {r : Answer} (hend : b.rest = .abort r) (hwhy : Refused lease s lo b.since op r)

section Transactions

variable {s : Tables} {b : Progress Tables Key Write OutboxRow Answer} {lo : Env} {lease : ℕ}

/-- A transaction that wrote about one job only has changed no other. -/
theorem others {ws : List Write} {id : JobId} (h : ∀ w ∈ ws, w.jobId = id) :
    ∀ id' ≠ id, (applyAll s ws).view id' = s.view id' :=
  fun _ hid' => s.view_applyAll_of_ne fun w hw => h w hw ▸ hid'.symm

theorem claim_outcome {id : JobId} {g : ℕ} {owner : WorkerId}
    (h : Exec Looks Logged s ⟨lo, claim lease id g owner, [], []⟩ b) (hb : b.rest.Ended) :
    Outcome lease s lo (.claim id g owner) b := by
  obtain ⟨e₁, t₁, h₁, h₁', hn₁, hx⟩ := selectForUpdate_inv h hb
  have hhi := (Exec.since_le hx).1
  simp only [applyAll_nil] at hx
  cases hrow : s.job? id with
  | none =>
    rw [hrow] at hx
    obtain rfl := Exec.ended hx trivial
    exact .refused rfl (.absent hrow)
  | some r =>
    rw [hrow] at hx
    dsimp only at hx
    split at hx
    · obtain rfl := Exec.ended hx trivial
      exact .refused rfl (.stale hrow ‹_›)
    rename_i hlive
    obtain ⟨hgen, hterm⟩ : r.generation = g ∧ ¬ r.terminal := by simpa using hlive
    split at hx
    · obtain rfl := Exec.ended hx trivial
      exact .refused rfl (.busy hrow hgen (by simp_all) (by simp_all) h₁ h₁')
    rename_i hactive
    split at hx
    · obtain rfl := Exec.ended hx trivial
      exact .refused rfl (.early hrow hgen hterm hactive ‹_› h₁ h₁')
    rename_i hearly
    have hclaim : r.Claimable g e₁.now := ⟨hgen, hterm, hactive, by simpa using hearly⟩
    have hid := Tables.job?_id hrow
    have hv : s.view id = ⟨some r, s.logsOf id, s.outboxOf id⟩ := by simp [Tables.view, hrow]
    split at hx
    · -- The attempts are used up: the job is declared dead.
      rename_i hbudget
      obtain ⟨e₂, t₂, h₂, h₂', hn₂, hx⟩ := updateJob_inv hx hb
      obtain ⟨e₃, t₃, h₃, h₃', hn₃, hF, hx⟩ := insertLog_inv hx hb
      obtain rfl := Exec.ended hx trivial
      refine .changed id rfl (.inr (by simp)) ?_ (others (by simp [Write.jobId]))
      exact .of_eq (.exhausted hid hclaim hbudget h₁ (Nat.le_trans h₁' h₂) (Nat.le_trans h₂' h₃)
        h₃' ⟨hF, Nat.lt_succ_self _⟩) hv (by simp [hv])
    split at hx
    · obtain rfl := Exec.ended hx trivial
      exact .refused rfl (.claimOutOfRange hrow hclaim (by omega) ‹_›)
    obtain ⟨e₂, t₂, h₂, h₂', hn₂, hx⟩ := updateJob_inv hx hb
    obtain ⟨e₃, t₃, h₃, h₃', hn₃, hF, hx⟩ := insertLog_inv hx hb
    obtain rfl := Exec.ended hx trivial
    refine .changed id rfl (.inr (by simp)) ?_ (others (by simp [Write.jobId]))
    exact .of_eq (.claimed hid hclaim (by omega) (by omega) h₁ (Nat.le_trans h₁' h₂)
      (Nat.le_trans h₂' h₃) h₃' ⟨hF, Nat.lt_succ_self _⟩) hv (by simp [hv])

theorem renew_outcome {j : Job} (h : Exec Looks Logged s ⟨lo, renew lease j, [], []⟩ b)
    (hb : b.rest.Ended) : Outcome lease s lo (.renew j) b := by
  obtain ⟨e, t, h₁, h₂, hn, ⟨r, hrow, hown, hx⟩ | ⟨hnone, hx⟩⟩ := updateWhere_inv h hb
  · have hid := Tables.job?_id hrow
    have hv : s.view j.id = ⟨some r, s.logsOf j.id, s.outboxOf j.id⟩ := by
      simp [Tables.view, hrow]
    by_cases hc : r.leaseUntil = some (e.now + lease)
    · simp only [hc, ne_eq, not_true_eq_false, decide_false, Bool.false_eq_true, if_false,
        owned_zero] at hx
      obtain rfl := Exec.ended hx trivial
      refine .refused rfl (.renewLost h₁ h₂ fun r' hr' _ => ?_)
      obtain rfl : r = r' := Option.some.inj (hrow.symm.trans hr')
      exact hc
    · simp only [ne_eq, hc, not_false_eq_true, decide_true, if_true, owned_one] at hx
      obtain rfl := Exec.ended hx trivial
      refine .changed j.id rfl (.inr (by simp)) ?_ (others (by simp [Write.jobId]))
      exact .of_eq (.renewed hid rfl hown hc h₁ h₂) hv (by simp [hv])
  · rw [owned_zero] at hx
    obtain rfl := Exec.ended hx trivial
    exact .refused rfl (.renewLost h₁ h₂ fun r hr hown => absurd hown (by simp [hnone r hr]))

/-- The places that the tables leave vacant. -/
theorem vacant_iff {p : Place} : Vacant p (s.outboxOf p.jobId) ↔ s.out? p = none := by
  rw [Tables.out?_eq_none]
  simp only [Vacant, s.mem_outboxOf, List.mem_map, not_exists, not_and]
  exact ⟨fun h o ho hp => h o ⟨ho, hp ▸ rfl⟩ hp, fun h o ho hp => h o ho.1 hp⟩

theorem finish_outcome {j : Job} {e : Ending} {message : String} {delay : ℕ}
    (h : Exec Looks Logged s ⟨lo, finish j e.status message delay, [], []⟩ b) (hb : b.rest.Ended) :
    Outcome lease s lo (.finish j e message delay) b := by
  obtain ⟨e₁, t₁, h₁, h₁', hn₁, ⟨r, hrow, hown, hx⟩ | ⟨hnone, hx⟩⟩ := updateWhere_inv h hb
  swap
  · rw [owned_zero] at hx
    obtain rfl := Exec.ended hx trivial
    exact .refused rfl (.finishLost h₁ h₁' hnone)
  have hid := Tables.job?_id hrow
  have hv : s.view j.id = ⟨some r, s.logsOf j.id, s.outboxOf j.id⟩ := by simp [Tables.view, hrow]
  rw [if_pos rfl, owned_one] at hx
  obtain ⟨e₂, t₂, h₂, h₂', hn₂, hF, hx⟩ := insertLog_inv hx hb
  split at hx
  swap
  · rename_i hstatus
    obtain rfl := Exec.ended hx trivial
    refine .changed j.id rfl (.inr (by simp)) ?_ (others (by simp [Write.jobId]))
    exact .of_eq (.finished hid rfl (mt Ending.status_eq_pending.2 hstatus) hown h₁
      (Nat.le_trans h₁' h₂) h₂' ⟨hF, Nat.lt_succ_self _⟩) hv (by simp [hv])
  · -- A retry is scheduled: the outbox row is made of the row as just updated.
    rename_i hstatus
    obtain rfl := Ending.status_eq_pending.1 hstatus
    obtain ⟨e₃, t₃, h₃, h₃', hn₃, hx⟩ := selectForUpdate_inv hx hb
    simp only [applyAll_append, applyAll_cons, applyAll_nil, apply_eq, Tables.job?_insertLog,
      Tables.job?_updateJob, hrow, if_true, Option.map_some] at hx
    obtain ⟨e₄, t₄, h₄, h₄', hn₄, ⟨hmax, hend⟩ | ⟨htaken, hend⟩ | ⟨-, hmax, hnone, hx⟩⟩ :=
      insertOutbox_inv hx hb
    · exact .refused hend (.retryOutOfRange hrow hown hmax)
    · refine .refused hend (.retryTaken hrow hown fun hvac => htaken ?_)
      simpa [JobRow.finish] using vacant_iff.1 hvac
    · obtain rfl := Exec.ended hx trivial
      have hnone : s.out? ⟨j.id, r.generation, r.attemptCount + 1⟩ = none := by
        simpa [JobRow.finish] using hnone
      refine .changed j.id rfl (.inr (by simp)) ?_ (others (by simp [Write.jobId]))
      refine .of_eq (.retried hid rfl hown (vacant_iff.2 hnone) hmax h₁ (Nat.le_trans h₁' h₂)
        (Nat.le_trans h₂' (Nat.le_trans h₃ (Nat.le_trans h₃' (Nat.le_trans h₄ h₄')))) ⟨hF, ?_⟩
        (Nat.lt_succ_self _)) hv ?_
      · show e₂.serial < e₄.serial + 1
        have := Nat.le_trans hn₃ (Nat.le_trans (Nat.le_succ _) hn₄)
        exact Nat.lt_succ_of_lt this
      · simp [hv, JobRow.finish, hnone]

theorem nextDue_some {now : ℕ} {t : Tables} {free : Key → Bool} {o : OutboxRow}
    (h : nextDue now t free = some o) :
    o ∈ t.jobOutbox ∧ o.due now = true ∧ free (.out o.place) = true := by
  have := List.argmin_mem (Option.mem_def.2 h)
  simpa only [List.mem_filter, Bool.and_eq_true] using this

theorem dispatch_outcome (h : Exec Looks Logged s ⟨lo, dispatch, [], []⟩ b) (hb : b.rest.Ended) :
    Outcome lease s lo .dispatch b := by
  obtain ⟨e₁, t₁, s₀, free, picked, h₁, h₁', -, hpick, -, hagree, hx⟩ := Exec.scan_inv h hb
  cases ho : nextDue e₁.now s₀ free with
  | none =>
    rw [ho] at hpick
    subst hpick
    obtain rfl := Exec.ended hx trivial
    exact .refused rfl .drained
  | some o =>
    rw [ho] at hpick
    subst hpick
    obtain ⟨hmem, hdue, -⟩ := nextDue_some ho
    have ho₀ : s₀.out? o.place = some o := Tables.out?_of_mem hmem
    -- The row is locked, so it is still what it was when it was picked.
    have hos : s.out? o.place = some o := by
      have : s₀.out? o.place = s.out? o.place := hagree (.out o.place) rfl
      rw [← this, ho₀]
    have hout : o ∈ s.outboxOf o.place.jobId := s.mem_outboxOf.2 ⟨Tables.out?_mem hos, rfl⟩
    simp only [Option.map_some, ho₀] at hx
    obtain ⟨e₂, t₂, v, _, h₂, h₂', -, hpast, hv, hx⟩ := Exec.read_inv hx hb
    have hov : v.out? o.place = some o := by
      have : v.out? o.place = s.out? o.place := hv (.out o.place) (by simp)
      rw [this, hos]
    cases hjob : v.job? o.place.jobId with
    | none =>
      have hempty := ((hpast.1 o.place.jobId).absent hjob).2
      exact absurd (v.mem_outboxOf.2 ⟨Tables.out?_mem hov, rfl⟩) (by
        rw [← v.view_outbox, hempty]; exact List.not_mem_nil)
    | some job =>
      obtain ⟨r, hr, hprec⟩ := hpast.2 o.place.jobId job hjob
      have hview : s.view o.place.jobId =
          ⟨some r, s.logsOf o.place.jobId, s.outboxOf o.place.jobId⟩ := by
        simp [Tables.view, Option.mem_def.1 hr]
      have hle : o.place.generation ≤ job.generation :=
        (hpast.1 o.place.jobId).generation_le job hjob o
          (v.mem_outboxOf.2 ⟨Tables.out?_mem hov, rfl⟩)
      simp only [hjob] at hx
      split at hx
      · -- The job was over when it was read, and it still is.
        rename_i hover
        have hover : o.place.generation < r.generation ∨
            o.place.generation = r.generation ∧ r.terminal := by
          rcases hprec.ages with hlt | ⟨heq, hterm⟩
          · exact .inl (Nat.lt_of_le_of_lt hle hlt)
          · rcases Nat.lt_or_eq_of_le hle with hlt | hgen
            · exact .inl (heq ▸ hlt)
            · exact .inr ⟨hgen.trans heq, hterm (hover.resolve_left fun h => h hgen.symm)⟩
        obtain ⟨e₃, t₃, h₃, h₃', -, -, hx⟩ := Exec.stmt_inv hx hb
        obtain rfl := Exec.ended hx trivial
        refine .changed o.place.jobId rfl (.inl rfl) ?_ (others (by simp [Write.jobId]))
        exact .of_eq (.dropped hout hdue hover h₁
          (Nat.le_trans h₁' (Nat.le_trans h₂ (Nat.le_trans h₂' (Nat.le_trans h₃ h₃')))))
          hview (by simp [hview])
      · obtain ⟨t₃, ok, h₃, hx⟩ := Exec.call_inv hx hb
        cases ok with
        | false =>
          obtain rfl := Exec.ended hx trivial
          exact .refused rfl .publishFailed
        | true =>
          obtain ⟨e₄, t₄, h₄, h₄', -, -, hx⟩ := Exec.stmt_inv hx hb
          obtain rfl := Exec.ended hx trivial
          refine .changed o.place.jobId rfl (.inl rfl) ?_ (others (by simp [Write.jobId]))
          exact .of_eq (.published hout hdue h₁
            (Nat.le_trans h₁' (Nat.le_trans h₂ (Nat.le_trans h₂' (Nat.le_trans h₃ h₄)))) h₄')
            hview (by simp [hview])

theorem createJob_outcome {j : NewJob}
    (h : Exec Looks Logged s ⟨lo, createJob j, [], []⟩ b) (hb : b.rest.Ended) :
    Outcome lease s lo (.createJob j) b := by
  obtain ⟨e₁, t₁, h₁, h₁', hn₁, -, hx⟩ := Exec.stmt_inv h hb
  rw [applyAll_nil] at hx
  by_cases hadm : s.Admits (j.row e₁.now)
  swap
  · rw [if_neg hadm] at hx
    obtain rfl := Exec.ended hx trivial
    exact .refused rfl (.duplicate hadm)
  have hrow : s.job? j.id = none := hadm.1
  have hv : s.view j.id = ⟨none, s.logsOf j.id, s.outboxOf j.id⟩ := by simp [Tables.view, hrow]
  rw [if_pos hadm, if_pos hadm] at hx
  obtain ⟨e₂, t₂, h₂, h₂', hn₂, hF, hx⟩ := insertLog_inv hx hb
  obtain ⟨e₃, t₃, h₃, h₃', hn₃, ⟨hmax, hend⟩ | ⟨htaken, hend⟩ | ⟨-, -, hnone, hx⟩⟩ :=
    insertOutbox_inv hx hb
  · exact absurd hmax (by simp [maxInt])
  · refine .refused hend (.firstTaken hrow fun hvac => htaken ?_)
    simpa using vacant_iff.1 hvac
  · obtain rfl := Exec.ended hx trivial
    have hnone : s.out? ⟨j.id, 1, 1⟩ = none := by simpa using hnone
    refine .changed j.id rfl (.inr (by simp)) ?_ (others (by simp [Write.jobId, NewJob.row]))
    refine .of_eq (.created rfl (vacant_iff.2 hnone) h₁ (Nat.le_trans h₁' h₂)
      (Nat.le_trans h₂' h₃) h₃' ⟨hF, Nat.lt_succ_of_lt hn₃⟩ (Nat.lt_succ_self _)) hv ?_
    have hins : (s.apply (.insertJob (j.row e₁.now))).view j.id =
        { s.view j.id with row := some (j.row e₁.now) } := s.view_insertJob hadm rfl
    simp [hins, hv, hnone]

theorem requeueJob_outcome {id : JobId}
    (h : Exec Looks Logged s ⟨lo, requeueJob id, [], []⟩ b) (hb : b.rest.Ended) :
    Outcome lease s lo (.requeueJob id) b := by
  obtain ⟨e₁, t₁, h₁, h₁', hn₁, hx⟩ := selectForUpdate_inv h hb
  rw [applyAll_nil] at hx
  cases hrow : s.job? id with
  | none =>
    rw [hrow] at hx
    obtain rfl := Exec.ended hx trivial
    exact .refused rfl (.notFound hrow)
  | some r =>
    have hid := Tables.job?_id hrow
    have hv : s.view id = ⟨some r, s.logsOf id, s.outboxOf id⟩ := by simp [Tables.view, hrow]
    rw [hrow] at hx
    dsimp only at hx
    split at hx
    · rename_i hstatus
      obtain rfl := Exec.ended hx trivial
      exact .refused rfl (.notRequeueable hrow hstatus.1 hstatus.2)
    rename_i hstatus
    split at hx
    · obtain rfl := Exec.ended hx trivial
      exact .refused rfl (.requeueOutOfRange hrow (by tauto) ‹_›)
    obtain ⟨e₂, t₂, h₂, h₂', hn₂, hx⟩ := updateJob_inv hx hb
    obtain ⟨e₃, t₃, h₃, h₃', hn₃, hF, hx⟩ := insertLog_inv hx hb
    obtain ⟨e₄, t₄, h₄, h₄', hn₄, ⟨hmax, hend⟩ | ⟨htaken, hend⟩ | ⟨hmax, -, hnone, hx⟩⟩ :=
      insertOutbox_inv hx hb
    · exact absurd hmax (by simp [maxInt] at *; omega)
    · refine .refused hend (.requeueTaken hrow (by tauto) fun hvac => htaken ?_)
      simpa using vacant_iff.1 hvac
    · obtain rfl := Exec.ended hx trivial
      have hnone : s.out? ⟨id, r.generation + 1, 1⟩ = none := by simpa using hnone
      refine .changed id rfl (.inr (by simp)) ?_ (others (by simp [Write.jobId]))
      refine .of_eq (.requeued hid (by tauto) hmax (vacant_iff.2 hnone)
        (Nat.le_trans h₁ (Nat.le_trans h₁' h₂)) (Nat.le_trans h₂' h₃)
        (Nat.le_trans h₃' h₄) h₄' ⟨hF, Nat.lt_succ_of_lt hn₄⟩ (Nat.lt_succ_self _)) hv ?_
      simp [hv, hnone]

/-- How a transaction that ran from its first statement to its end has ended. -/
theorem exec_outcome {cfg : Config} {op : Op} {began : ℕ}
    (h : Exec Looks Logged s (Server.start (·.script cfg) op began) b) (hb : b.rest.Ended) :
    Outcome cfg.lease s ⟨began, 0⟩ op b := by
  cases op with
  | claim => exact claim_outcome h hb
  | renew => exact renew_outcome h hb
  | finish => exact finish_outcome h hb
  | dispatch => exact dispatch_outcome h hb
  | createJob => exact createJob_outcome h hb
  | requeueJob => exact requeueJob_outcome h hb
  | selectById =>
    obtain ⟨e, t, v, _, -, -, -, hpast, -, hx⟩ := Exec.read_inv h hb
    obtain rfl := Exec.ended hx trivial
    exact .read (fun _ => rfl) hpast rfl rfl
  | selectByRequestKey =>
    obtain ⟨e, t, v, _, -, -, -, hpast, -, hx⟩ := Exec.read_inv h hb
    obtain rfl := Exec.ended hx trivial
    exact .read (fun _ => rfl) hpast rfl rfl

end Transactions

end ScaleQueue
