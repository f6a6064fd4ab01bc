import Mathlib.Logic.Function.Basic
import ScaleQueue.Locking.Script

/-!
# A server running transactions in sessions

The server runs the scripts of many sessions at once, statement by statement
and in any order. A statement waits until the locks it takes are free (it is
not enabled before), and the time it reads as the current one may be any time
since the last statement of its session ended: a statement that waited for a
lock has read the clock before. A session ends by a commit, which applies its
writes, by its own abort, or by a failure at any statement; in every case its
locks are released. A client may leave its session: no further statement is then
sent, but a commit that is on its way may still arrive.

`Isolated` says that each open session is at a point of a run of its script
against the store as it is *now*. It is kept by every step of the server, and
makes commits atomic (`Isolated.commit`): a transaction changes the store as if
it had run from its first statement to its last at the moment it commits.
-/

set_option linter.unusedSectionVars false

namespace Locking

/-- A transaction in progress. -/
structure Session (σ κ ω γ ρ ο : Type) where
  op : ο
  /-- When the transaction began. -/
  began : ℕ
  /-- When its last statement ended. -/
  since : ℕ
  /-- Its client is still there. -/
  attended : Bool
  rest : Script σ κ ω γ ρ
  writes : List ω

/-- How the client, or the loss of it, ends a session. -/
inductive Closing
  | commit
  | abort
  | fail
  deriving DecidableEq

/-- What became of a closed session. -/
inductive Closed (ρ ο : Type)
  | committed (op : ο) (r : ρ)
  | aborted (op : ο) (r : ρ)
  | failed (op : ο)

/-- The server: the committed store, the clock, the next serial number, who holds each lock,
    and the open sessions. -/
structure Server (σ κ ω γ ρ ο ι : Type) where
  store : σ
  clock : ℕ
  serial : ℕ
  locks : κ → Option ι
  sessions : ι → Option (Session σ κ ω γ ρ ο)

namespace Server

variable {σ κ ω γ ρ ο ι : Type} [DecidableEq κ] [DecidableEq ι]
  (srv : Server σ κ ω γ ρ ο ι) (i : ι)

/-- No other session holds the lock. -/
def free (k : κ) : Bool := srv.locks k = none ∨ srv.locks k = some i

/-- The locks after the session `i` took `keys`. -/
def take (keys : List κ) : κ → Option ι := fun k => if k ∈ keys then some i else srv.locks k

/-- The locks after the session `i` released its own. -/
def release : κ → Option ι := fun k => if srv.locks k = some i then none else srv.locks k

/-- Session `i` begins the transaction `op`. -/
def begin (prog : ο → Script σ κ ω γ ρ) (op : ο) : Server σ κ ω γ ρ ο ι :=
  { srv with sessions :=
      Function.update srv.sessions i (some ⟨op, srv.clock, srv.clock, true, prog op, []⟩) }

/-- The client of session `i` leaves it. A statement that was on its way then
    changes nothing that outlasts the session. -/
def leave : Server σ κ ω γ ρ ο ι :=
  { srv with
    sessions := Function.update srv.sessions i
      ((srv.sessions i).map fun x => { x with attended := false }) }

/-- Time passes. -/
def advance (d : ℕ) : Server σ κ ω γ ρ ο ι := { srv with clock := srv.clock + d }

/-- Session `i` is replaced by `x`, and takes `keys`. -/
def goOn (keys : List κ) (x : Session σ κ ω γ ρ ο) : Server σ κ ω γ ρ ο ι :=
  { srv with
    serial := srv.serial + 1
    locks := srv.take i keys
    sessions := Function.update srv.sessions i (some x) }

section Exec

variable [Lockable σ κ] [Writable ω σ κ]

/-- Session `i` runs its next statement, which read the clock at `now`. -/
def exec (now : ℕ) : Option (Server σ κ ω γ ρ ο ι) :=
  match srv.sessions i with
  | none => none
  | some x =>
    let e : Env := ⟨now, srv.serial⟩
    if x.attended ∧ x.since ≤ now ∧ now ≤ srv.clock then
      match x.rest with
      | .stmt keys write next =>
        let view := applyAll srv.store x.writes
        if ∀ k ∈ keys, srv.free i k = true then
          some (srv.goOn i keys { x with
            since := srv.clock, rest := next e view, writes := x.writes ++ write e view })
        else none
      | .scan pick next =>
        match pick e srv.store (srv.free i) with
        | none => some (srv.goOn i [] { x with
            since := srv.clock, rest := next e srv.store none })
        | some k =>
          if srv.free i k then
            some (srv.goOn i [k] { x with
              since := srv.clock, rest := next e srv.store (some k) })
          else none
      | .read next => some (srv.goOn i [] { x with
          since := srv.clock, rest := next e srv.store })
      | .call _ _ => none
      | .commit _ => none
      | .abort _ => none
    else none

/-- What session `i` waits for outside of the store succeeds or fails. -/
def answer (b : Bool) : Option (Server σ κ ω γ ρ ο ι) :=
  match srv.sessions i with
  | none => none
  | some x =>
    match x.rest with
    | .call _ next => some { srv with
        sessions := Function.update srv.sessions i
          (some { x with since := srv.clock, rest := next b }) }
    | _ => none

/-- What session `i` waits for outside of the store. -/
def waiting : Option γ :=
  match srv.sessions i with
  | some x =>
    match x.rest with
    | .call c _ => some c
    | _ => none
  | none => none

/-- Session `i` ends, leaving the store `s`. -/
def drop (s : σ) : Server σ κ ω γ ρ ο ι :=
  { srv with
    store := s
    locks := srv.release i
    sessions := Function.update srv.sessions i none }

/-- Session `i` is closed: by the commit or the abort its script has reached, or
    by a failure. -/
def close (how : Closing) : Option (Server σ κ ω γ ρ ο ι × Closed ρ ο) :=
  match srv.sessions i with
  | none => none
  | some x =>
    match how, x.rest with
    | .commit, .commit r =>
      some (srv.drop i (applyAll srv.store x.writes), .committed x.op r)
    | .abort, .abort r => some (srv.drop i srv.store, .aborted x.op r)
    | .fail, _ => some (srv.drop i srv.store, .failed x.op)
    | _, _ => none

end Exec

/-! ## What each step does -/

variable {srv i} {srv' : Server σ κ ω γ ρ ο ι}

theorem free_iff {k : κ} : srv.free i k = true ↔ srv.locks k = none ∨ srv.locks k = some i := by
  simp [free]

@[simp] theorem advance_store (d : ℕ) : (srv.advance d).store = srv.store := rfl
@[simp] theorem advance_sessions (d : ℕ) : (srv.advance d).sessions = srv.sessions := rfl
@[simp] theorem advance_locks (d : ℕ) : (srv.advance d).locks = srv.locks := rfl
@[simp] theorem advance_serial (d : ℕ) : (srv.advance d).serial = srv.serial := rfl
@[simp] theorem advance_clock (d : ℕ) : (srv.advance d).clock = srv.clock + d := rfl

@[simp] theorem begin_store (prog : ο → Script σ κ ω γ ρ) (op : ο) :
    (srv.begin i prog op).store = srv.store := rfl
@[simp] theorem begin_clock (prog : ο → Script σ κ ω γ ρ) (op : ο) :
    (srv.begin i prog op).clock = srv.clock := rfl
@[simp] theorem begin_serial (prog : ο → Script σ κ ω γ ρ) (op : ο) :
    (srv.begin i prog op).serial = srv.serial := rfl
@[simp] theorem begin_locks (prog : ο → Script σ κ ω γ ρ) (op : ο) :
    (srv.begin i prog op).locks = srv.locks := rfl

@[simp] theorem leave_store : (srv.leave i).store = srv.store := rfl
@[simp] theorem leave_clock : (srv.leave i).clock = srv.clock := rfl
@[simp] theorem leave_serial : (srv.leave i).serial = srv.serial := rfl
@[simp] theorem leave_locks : (srv.leave i).locks = srv.locks := rfl

variable [Lockable σ κ] [Writable ω σ κ]

/-- Session `x` of `i` runs its next statement at `now`: it takes the keys, and goes on
    as the second session. -/
inductive Executes (srv : Server σ κ ω γ ρ ο ι) (i : ι) (now : ℕ) (x : Session σ κ ω γ ρ ο) :
    List κ → Session σ κ ω γ ρ ο → Prop
  | stmt {keys write next} (hx : x.rest = .stmt keys write next)
      (hfree : ∀ k ∈ keys, srv.free i k = true) :
      Executes srv i now x keys { x with
        since := srv.clock
        rest := next ⟨now, srv.serial⟩ (applyAll srv.store x.writes)
        writes := x.writes ++ write ⟨now, srv.serial⟩ (applyAll srv.store x.writes) }
  | scan {pick next} {o : Option κ} (hx : x.rest = .scan pick next)
      (hpick : pick ⟨now, srv.serial⟩ srv.store (srv.free i) = o)
      (hfree : ∀ k ∈ o.toList, srv.free i k = true) :
      Executes srv i now x o.toList { x with
        since := srv.clock
        rest := next ⟨now, srv.serial⟩ srv.store o }
  | read {next} (hx : x.rest = .read next) :
      Executes srv i now x [] { x with
        since := srv.clock
        rest := next ⟨now, srv.serial⟩ srv.store }

/-- What a statement can do. -/
theorem exec_inv {now : ℕ} (h : srv.exec i now = some srv') :
    ∃ x keys y, srv.sessions i = some x ∧ x.attended = true ∧ x.since ≤ now ∧ now ≤ srv.clock ∧
      srv' = srv.goOn i keys y ∧ Executes srv i now x keys y := by
  unfold exec at h
  split at h
  · exact absurd h (by simp)
  · rename_i x hx
    simp only at h
    split at h
    · rename_i hin
      split at h
      · rename_i hrest
        split at h
        · rename_i hfree
          exact ⟨x, _, _, hx, hin.1, hin.2.1, hin.2.2, (Option.some.inj h).symm, .stmt hrest hfree⟩
        · exact absurd h (by simp)
      · rename_i hrest
        split at h
        · rename_i hpick
          exact ⟨x, _, _, hx, hin.1, hin.2.1, hin.2.2, (Option.some.inj h).symm,
            .scan hrest hpick (by simp)⟩
        · rename_i k hpick
          split at h
          · rename_i hfree
            exact ⟨x, _, _, hx, hin.1, hin.2.1, hin.2.2, (Option.some.inj h).symm,
              .scan hrest hpick (by simpa using hfree)⟩
          · exact absurd h (by simp)
      · rename_i hrest
        exact ⟨x, _, _, hx, hin.1, hin.2.1, hin.2.2, (Option.some.inj h).symm, .read hrest⟩
      · exact absurd h (by simp)
      · exact absurd h (by simp)
      · exact absurd h (by simp)
    · exact absurd h (by simp)

section Executes

variable {now : ℕ} {x y : Session σ κ ω γ ρ ο} {keys : List κ}

theorem Executes.free (h : Executes srv i now x keys y) : ∀ k ∈ keys, srv.free i k = true := by
  cases h with
  | stmt _ hfree => exact hfree
  | scan _ _ hfree => exact hfree
  | read => exact fun k hk => absurd hk (by simp)

/-- A statement leaves the transaction the same. -/
theorem Executes.same (h : Executes srv i now x keys y) :
    y.op = x.op ∧ y.began = x.began ∧ y.attended = x.attended ∧ y.since = srv.clock := by
  cases h with
  | stmt => exact ⟨rfl, rfl, rfl, rfl⟩
  | scan => exact ⟨rfl, rfl, rfl, rfl⟩
  | read => exact ⟨rfl, rfl, rfl, rfl⟩

end Executes

/-- A statement leaves the store and the clock alone, and touches no session but
    its own, which stays the same transaction. -/
theorem exec_cases {now : ℕ} (h : srv.exec i now = some srv') :
    srv'.store = srv.store ∧ srv'.clock = srv.clock ∧ srv'.serial = srv.serial + 1 ∧
    (∃ keys, srv'.locks = srv.take i keys ∧ ∀ k ∈ keys, srv.free i k = true) ∧
    ∃ x x', srv.sessions i = some x ∧
      srv'.sessions = Function.update srv.sessions i (some x') ∧
      x'.op = x.op ∧ x'.began = x.began ∧ x'.since = srv.clock ∧
      x.attended = true ∧ x'.attended = true := by
  obtain ⟨x, keys, y, hx, hatt, -, -, rfl, hex⟩ := exec_inv h
  obtain ⟨hop, hbegan, hsame, hsince⟩ := hex.same
  exact ⟨rfl, rfl, rfl, ⟨keys, rfl, hex.free⟩, x, y, hx, rfl, hop, hbegan, hsince, hatt,
    hsame.trans hatt⟩

/-- The session `y` is `x` after one statement of its script. -/
inductive Ran (x y : Session σ κ ω γ ρ ο) : Prop
  | stmt {keys write next e s} (hx : x.rest = .stmt keys write next) (hy : y.rest = next e s)
      (hw : y.writes = x.writes ++ write e s)
  | scan {pick next e s k} (hx : x.rest = .scan pick next) (hy : y.rest = next e s k)
      (hw : y.writes = x.writes)
  | read {next e s} (hx : x.rest = .read next) (hy : y.rest = next e s) (hw : y.writes = x.writes)

theorem Executes.ran {now : ℕ} {x y : Session σ κ ω γ ρ ο} {keys : List κ}
    (h : Executes srv i now x keys y) : Ran x y := by
  cases h with
  | stmt hx => exact .stmt hx rfl rfl
  | scan hx => exact .scan hx rfl rfl
  | read hx => exact .read hx rfl rfl

/-- What a statement writes, it writes after the last statement of its session. -/
theorem exec_writes {now : ℕ} (h : srv.exec i now = some srv') :
    ∃ x y, srv.sessions i = some x ∧ srv'.sessions i = some y ∧ x.since ≤ now ∧ now ≤ srv.clock ∧
      ∀ w ∈ y.writes, w ∈ x.writes ∨ ∃ keys write next, x.rest = .stmt keys write next ∧
        w ∈ write ⟨now, srv.serial⟩ (applyAll srv.store x.writes) := by
  obtain ⟨x, keys, y, hx, -, hsince, hnow, rfl, hex⟩ := exec_inv h
  refine ⟨x, y, hx, Function.update_self _ _ _, hsince, hnow, fun w hw => ?_⟩
  cases hex with
  | stmt hrest => exact (List.mem_append.1 hw).imp_right fun hw => ⟨_, _, _, hrest, hw⟩
  | scan => exact .inl hw
  | read => exact .inl hw

omit [DecidableEq κ] [DecidableEq ι] [Lockable σ κ] [Writable ω σ κ] in
/-- A statement writes what its script may write. -/
theorem Ran.granted {x y : Session σ κ ω γ ρ ο} (h : Ran x y) {grants : γ → Bool → ω → Prop}
    {P : ω → Prop} (hx : x.rest.Granted grants P ∧ ∀ w ∈ x.writes, P w) :
    y.rest.Granted grants P ∧ ∀ w ∈ y.writes, P w := by
  obtain ⟨hrest, hwrites⟩ := hx
  cases h with
  | stmt hx hy hw =>
    rw [hx] at hrest
    rw [hy, hw]
    refine ⟨hrest.2 _ _, fun w hmem => ?_⟩
    rcases List.mem_append.1 hmem with hmem | hmem
    · exact hwrites w hmem
    · exact hrest.1 _ _ w hmem
  | scan hx hy hw =>
    rw [hx] at hrest
    rw [hy, hw]
    exact ⟨hrest _ _ _, hwrites⟩
  | read hx hy hw =>
    rw [hx] at hrest
    rw [hy, hw]
    exact ⟨hrest _ _, hwrites⟩

theorem answer_cases {b : Bool} (h : srv.answer i b = some srv') :
    ∃ x c next, srv.sessions i = some x ∧ x.rest = .call c next ∧
      srv' = { srv with
        sessions := Function.update srv.sessions i
          (some { x with since := srv.clock, rest := next b }) } := by
  unfold answer at h
  split at h
  · exact absurd h (by simp)
  · rename_i x hx
    split at h
    · exact ⟨x, _, _, hx, ‹_›, (Option.some.inj h).symm⟩
    · exact absurd h (by simp)

/-- A closed session commits its writes, or leaves the store as it is. -/
theorem close_cases {how : Closing} {c : Closed ρ ο} (h : srv.close i how = some (srv', c)) :
    ∃ x, srv.sessions i = some x ∧
      ((∃ r, x.rest = .commit r ∧ c = .committed x.op r ∧
          srv' = srv.drop i (applyAll srv.store x.writes)) ∨
        (∃ r, x.rest = .abort r ∧ c = .aborted x.op r ∧ srv' = srv.drop i srv.store) ∨
        (c = .failed x.op ∧ srv' = srv.drop i srv.store)) := by
  unfold close at h
  split at h
  · exact absurd h (by simp)
  · rename_i x hx
    refine ⟨x, hx, ?_⟩
    split at h
    · rename_i r hr
      obtain ⟨rfl, rfl⟩ := Prod.mk.inj (Option.some.inj h)
      exact .inl ⟨r, hr, rfl, rfl⟩
    · rename_i r hr
      obtain ⟨rfl, rfl⟩ := Prod.mk.inj (Option.some.inj h)
      exact .inr (.inl ⟨r, hr, rfl, rfl⟩)
    · obtain ⟨rfl, rfl⟩ := Prod.mk.inj (Option.some.inj h)
      exact .inr (.inr ⟨rfl, rfl⟩)
    · exact absurd h (by simp)

/-- A closed session is dropped, whatever the store is then. -/
theorem close_drop {how : Closing} {c : Closed ρ ο} (h : srv.close i how = some (srv', c)) :
    ∃ s, srv' = srv.drop i s := by
  obtain ⟨x, -, ⟨r, -, -, rfl⟩ | ⟨r, -, -, rfl⟩ | ⟨-, rfl⟩⟩ := close_cases h
  · exact ⟨_, rfl⟩
  · exact ⟨_, rfl⟩
  · exact ⟨_, rfl⟩

/-- Nothing else than a failure makes a session fail. -/
theorem close_failed {how : Closing} {op : ο} (h : srv.close i how = some (srv', .failed op)) :
    how = .fail := by
  unfold close at h
  split at h
  · exact absurd h (by simp)
  · split at h
    · simp at h
    · simp at h
    · rfl
    · exact absurd h (by simp)

/-! ## Runs of the server -/

/-- One step of the server, and the session closed in it. -/
inductive Step (prog : ο → Script σ κ ω γ ρ) (srv : Server σ κ ω γ ρ ο ι) :
    Option (ι × Closed ρ ο) → Server σ κ ω γ ρ ο ι → Prop
  | advance (d : ℕ) : Step prog srv none (srv.advance d)
  | begin (i : ι) (op : ο) : Step prog srv none (srv.begin i prog op)
  | leave (i : ι) : Step prog srv none (srv.leave i)
  | exec {t : Server σ κ ω γ ρ ο ι} (i : ι) (now : ℕ) :
      srv.exec i now = some t → Step prog srv none t
  | answer {t : Server σ κ ω γ ρ ο ι} (i : ι) (b : Bool) :
      srv.answer i b = some t → Step prog srv none t
  | close {t : Server σ κ ω γ ρ ο ι} {c : Closed ρ ο} (i : ι) (how : Closing) :
      srv.close i how = some (t, c) → Step prog srv (some (i, c)) t

/-- Steps of the server, and the sessions closed in them. -/
inductive Steps (prog : ο → Script σ κ ω γ ρ) (srv : Server σ κ ω γ ρ ο ι) :
    List (ι × Closed ρ ο) → Server σ κ ω γ ρ ο ι → Prop
  | refl : Steps prog srv [] srv
  | tail {t u : Server σ κ ω γ ρ ο ι} {cs : List (ι × Closed ρ ο)} {c : Option (ι × Closed ρ ο)} :
      Steps prog srv cs t → Step prog t c u → Steps prog srv (cs ++ c.toList) u

section Steps

variable {prog : ο → Script σ κ ω γ ρ}

theorem Step.steps {c : Option (ι × Closed ρ ο)} (h : Step prog srv c srv') :
    Steps prog srv c.toList srv' := .tail .refl h

theorem Steps.trans {srv'' : Server σ κ ω γ ρ ο ι} {cs cs' : List (ι × Closed ρ ο)}
    (h : Steps prog srv cs srv') (h' : Steps prog srv' cs' srv'') :
    Steps prog srv (cs ++ cs') srv'' := by
  induction h' with
  | refl => rwa [List.append_nil]
  | tail _ hs ih => rw [← List.append_assoc]; exact .tail ih hs

theorem Step.clock_le {c : Option (ι × Closed ρ ο)} (h : Step prog srv c srv') :
    srv.clock ≤ srv'.clock ∧ srv.serial ≤ srv'.serial := by
  cases h with
  | advance d => exact ⟨Nat.le_add_right _ _, le_rfl⟩
  | begin => exact ⟨le_rfl, le_rfl⟩
  | leave => exact ⟨le_rfl, le_rfl⟩
  | exec i now hx =>
    obtain ⟨_, hc, hn, _⟩ := exec_cases hx
    exact ⟨Nat.le_of_eq hc.symm, hn ▸ Nat.le_succ _⟩
  | answer i b hx =>
    obtain ⟨x, c, next, _, _, rfl⟩ := answer_cases hx
    exact ⟨le_rfl, le_rfl⟩
  | close i how hx =>
    obtain ⟨x, _, ⟨_, _, _, rfl⟩ | ⟨_, _, _, rfl⟩ | ⟨_, rfl⟩⟩ := close_cases hx <;>
      exact ⟨le_rfl, le_rfl⟩

/-- Only a commit changes the store. -/
theorem Step.store_eq {c : Option (ι × Closed ρ ο)} (h : Step prog srv c srv')
    (hc : ∀ i op r, c ≠ some (i, .committed op r)) : srv'.store = srv.store := by
  cases h with
  | advance d => rfl
  | begin => rfl
  | leave => rfl
  | exec i now hx => exact (exec_cases hx).1
  | answer i b hx =>
    obtain ⟨x, c, next, _, _, rfl⟩ := answer_cases hx
    rfl
  | close i how hx =>
    obtain ⟨x, _, ⟨_, _, rfl, _⟩ | ⟨_, _, _, rfl⟩ | ⟨_, rfl⟩⟩ := close_cases hx
    · exact absurd rfl (hc _ _ _)
    · rfl
    · rfl

theorem Steps.clock_le {cs : List (ι × Closed ρ ο)} (h : Steps prog srv cs srv') :
    srv.clock ≤ srv'.clock := by
  induction h with
  | refl => exact le_rfl
  | tail _ hs ih => exact Nat.le_trans ih hs.clock_le.1

theorem Steps.serial_le {cs : List (ι × Closed ρ ο)} (h : Steps prog srv cs srv') :
    srv.serial ≤ srv'.serial := by
  induction h with
  | refl => exact le_rfl
  | tail _ hs ih => exact Nat.le_trans ih hs.clock_le.2

theorem Steps.store_eq {cs : List (ι × Closed ρ ο)} (h : Steps prog srv cs srv')
    (hc : ∀ i op r, (i, .committed op r) ∉ cs) : srv'.store = srv.store := by
  induction h with
  | refl => rfl
  | tail _ hs ih =>
    rw [hs.store_eq fun i op r h => hc i op r (by simp [h])]
    exact ih fun i op r h => hc i op r (List.mem_append_left _ h)

end Steps

/-! ## Isolation -/

section Isolation

variable (prog : ο → Script σ κ ω γ ρ) (R : ι → Env → σ → (κ → Bool) → σ → Prop)
  (F : Env → κ → σ → Prop)

/-- Where a transaction starts. -/
def start (op : ο) (began : ℕ) : Progress σ κ ω γ ρ := ⟨⟨began, 0⟩, prog op, [], []⟩

/-- Session `x` of `i` is at a point of a run of its script against the store. -/
def RunsIn (srv : Server σ κ ω γ ρ ο ι) (i : ι) (x : Session σ κ ω γ ρ ο) : Prop :=
  ∃ n H, Exec (R i) F srv.store (start prog x.op x.began) ⟨⟨x.since, n⟩, x.rest, x.writes, H⟩ ∧
    n ≤ srv.serial ∧ x.since ≤ srv.clock ∧ ∀ k ∈ H, srv.locks k = some i

/-- Every open session is at a point of a run of its script against the store,
    and locks are held by open sessions only. -/
structure Isolated (srv : Server σ κ ω γ ρ ο ι) : Prop where
  locked : ∀ k i, srv.locks k = some i → (srv.sessions i).isSome
  runs : ∀ i x, srv.sessions i = some x → RunsIn prog R F srv i x

variable {prog R F}

theorem Isolated.advance (h : Isolated prog R F srv) (d : ℕ) :
    Isolated prog R F (srv.advance d) where
  locked := h.locked
  runs i x hx := by
    obtain ⟨n, H, hr, hn, ht, hl⟩ := h.runs i x hx
    exact ⟨n, H, hr, hn, Nat.le_add_right_of_le ht, hl⟩

theorem Isolated.begin (h : Isolated prog R F srv) (op : ο) :
    Isolated prog R F (srv.begin i prog op) where
  locked k j hk := by
    by_cases hj : j = i
    · subst hj; simp [Server.begin]
    · simpa [Server.begin, hj] using h.locked k j hk
  runs j x hx := by
    by_cases hj : j = i
    · subst hj
      obtain rfl : _ = x := Option.some.inj (by simpa [Server.begin] using hx)
      exact ⟨0, [], .refl, Nat.zero_le _, le_rfl, by simp⟩
    · exact h.runs j x (by simpa [Server.begin, hj] using hx)

theorem Isolated.leave (h : Isolated prog R F srv) : Isolated prog R F (srv.leave i) where
  locked k j hk := by
    by_cases hj : j = i
    · subst hj; simpa [Server.leave] using h.locked k j hk
    · simpa [Server.leave, hj] using h.locked k j hk
  runs j x hx := by
    by_cases hj : j = i
    · subst hj
      obtain ⟨y, hy, rfl⟩ : ∃ y, srv.sessions j = some y ∧ { y with attended := false } = x := by
        simpa [Server.leave] using hx
      exact h.runs j y hy
    · exact h.runs j x (by simpa [Server.leave, hj] using hx)

/-- What a session has written is protected by locks that it holds. -/
theorem RunsIn.holds {x : Session σ κ ω γ ρ ο} (h : RunsIn prog R F srv i x)
    (hobey : ∀ op, (prog op).Obeys) {w : ω} (hw : w ∈ x.writes) {k : κ} (hk : k ∈ covers w) :
    srv.locks k = some i := by
  obtain ⟨n, H, hr, -, -, hl⟩ := h
  exact hl k (Exec.covered hr (hobey _) (by simp [start, Progress.Covered]) w hw k hk)

/-- A session survives whatever leaves it, the store and its locks alone. -/
theorem RunsIn.keep {x : Session σ κ ω γ ρ ο} (h : RunsIn prog R F srv i x)
    (hs : srv'.store = srv.store) (hc : srv.clock ≤ srv'.clock)
    (hn : srv.serial ≤ srv'.serial)
    (hl : ∀ k, srv.locks k = some i → srv'.locks k = some i) : RunsIn prog R F srv' i x := by
  obtain ⟨n, H, hr, hn', ht, hl'⟩ := h
  exact ⟨n, H, hs ▸ hr, Nat.le_trans hn' hn, Nat.le_trans ht hc, fun k hk => hl k (hl' k hk)⟩

theorem take_other {keys : List κ} {j : ι} (hf : ∀ k ∈ keys, srv.free i k = true) (hj : j ≠ i)
    (k : κ) (hk : srv.locks k = some j) : srv.take i keys k = some j := by
  have : k ∉ keys := fun hm => by
    rcases free_iff.1 (hf k hm) with h | h <;> simp_all
  simp [take, this, hk]

/-- A session that takes keys takes none of another session. -/
theorem goOn_locks {keys : List κ} {x : Session σ κ ω γ ρ ο} {j : ι}
    (hf : ∀ k ∈ keys, srv.free i k = true) (hj : j ≠ i) (k : κ) :
    (srv.goOn i keys x).locks k = some j ↔ srv.locks k = some j := by
  refine ⟨fun hk => ?_, fun hk => take_other hf hj k hk⟩
  simp only [goOn, take] at hk
  split at hk
  · exact absurd (Option.some.inj hk).symm hj
  · exact hk

theorem Isolated.exec (h : Isolated prog R F srv) {now : ℕ}
    (hx : srv.exec i now = some srv')
    (hR : R i ⟨now, srv.serial⟩ srv.store (srv.free i) srv.store)
    (hF : ∀ k, F ⟨now, srv.serial⟩ k srv.store) : Isolated prog R F srv' := by
  obtain ⟨x, keys, y, hxi, -, hsince, hnow, rfl, hex⟩ := exec_inv hx
  constructor
  · intro k j hk
    by_cases hj : j = i
    · subst hj; simp [goOn]
    · simpa [goOn, hj] using h.locked k j ((goOn_locks hex.free hj k).1 hk)
  · intro j z hz
    by_cases hj : j = i
    swap
    · exact (h.runs j z (by simpa [goOn, hj] using hz)).keep rfl le_rfl (Nat.le_succ _)
        fun k => (goOn_locks hex.free hj k).2
    subst hj
    obtain rfl : y = z := Option.some.inj (by simpa [goOn] using hz)
    obtain ⟨n, H, hr, hn', ht, hl'⟩ := h.runs j x hxi
    -- The run of the session goes on by the statement, against the same store.
    have grow : ∀ k ∈ keys ++ H, srv.take j keys k = some j := fun k hk => by
      rcases List.mem_append.1 hk with hk | hk
      · simp [take, hk]
      · simp [take, hl' k hk]
    refine ⟨srv.serial + 1, keys ++ H, ?_, Nat.le_refl _, Nat.le_of_eq hex.same.2.2.2, grow⟩
    cases hex with
    | stmt hrest =>
      refine .tail hr ?_
      rw [hrest]
      exact .stmt hsince hnow hn' fun k _ => hF k
    | scan hrest hpick =>
      refine .tail hr ?_
      rw [hrest]
      exact .scan hsince hnow hn' hpick hR fun k _ => Agree.refl k _
    | read hrest =>
      refine .tail hr ?_
      rw [hrest]
      exact .read hsince hnow hn' hR fun k _ => Agree.refl k _

theorem Isolated.answer (h : Isolated prog R F srv) {b : Bool}
    (hx : srv.answer i b = some srv') : Isolated prog R F srv' := by
  obtain ⟨x, c, next, hxi, hrest, rfl⟩ := answer_cases hx
  constructor
  · intro k j hk
    by_cases hj : j = i
    · subst hj; simp
    · simpa [hj] using h.locked k j hk
  · intro j y hy
    by_cases hj : j = i
    · subst hj
      obtain rfl : _ = y := Option.some.inj (by simpa using hy)
      obtain ⟨n, H, hr, hn, ht, hl⟩ := h.runs j x hxi
      refine ⟨n, H, .tail hr ?_, hn, le_rfl, hl⟩
      rw [hrest]
      exact .call ht
    · exact (h.runs j y (by simpa [hj] using hy)).keep rfl le_rfl le_rfl fun _ hk => hk

theorem release_other {j : ι} (hj : j ≠ i) {k : κ} (hk : srv.locks k = some j) :
    srv.release i k = some j := by
  simp [release, hk, hj]

/-- A closed session leaves the others isolated, provided that what they may have seen in a
    run against the old store, they may have seen in one against the new store. -/
theorem Isolated.close (h : Isolated prog R F srv) (hobey : ∀ op, (prog op).Obeys)
    {how : Closing} {c : Closed ρ ο} (hx : srv.close i how = some (srv', c))
    (hR : ∀ j e v free, R j e v free srv.store → R j e v free srv'.store)
    (hF : ∀ e k s s', Agree k s s' → F e k s → F e k s') : Isolated prog R F srv' := by
  obtain ⟨x, hxi, hcase⟩ := close_cases hx
  obtain ⟨s, hs, hframe⟩ : ∃ s, srv' = srv.drop i s ∧
      ∀ k, srv.locks k ≠ some i → Agree k srv.store s := by
    rcases hcase with ⟨r, _, _, rfl⟩ | ⟨r, _, _, rfl⟩ | ⟨_, rfl⟩
    · refine ⟨_, rfl, fun k hk => Agree.symm (applyAll_frame _ fun w hw hkw => hk ?_)⟩
      exact (h.runs i x hxi).holds hobey hw hkw
    · exact ⟨_, rfl, fun k _ => Agree.refl k _⟩
    · exact ⟨_, rfl, fun k _ => Agree.refl k _⟩
  subst hs
  constructor
  · intro k j hk
    by_cases hj : j = i
    · subst hj
      simp only [drop, release] at hk
      split at hk
      · exact absurd hk (by simp)
      · exact absurd hk ‹_›
    · simp only [drop, release] at hk ⊢
      rw [Function.update_of_ne hj]
      split at hk
      · exact absurd hk (by simp)
      · exact h.locked k j hk
  · intro j y hy
    have hj : j ≠ i := by rintro rfl; simp [drop] at hy
    obtain ⟨n, H, hr, hn, ht, hl⟩ := h.runs j y (by simpa [drop, hj] using hy)
    refine ⟨n, H, ?_, hn, ht, fun k hk => release_other hj (hl k hk)⟩
    refine Exec.transfer hr (hobey _) (by simp [start, Progress.Covered])
      (fun k hk => hframe k fun hi => hj (Option.some.inj ((hl k hk).symm.trans hi))) (hR j) ?_
    exact fun e k => hF e k _ _

/-- Commits are atomic: the transaction has run from its first statement to its
    last against the store it commits to. -/
theorem Isolated.commit (h : Isolated prog R F srv) {how : Closing} {op : ο} {r : ρ}
    (hx : srv.close i how = some (srv', .committed op r)) :
    ∃ x b, srv.sessions i = some x ∧ x.op = op ∧
      Exec (R i) F srv.store (start prog op x.began) b ∧ b.rest = .commit r ∧
      srv'.store = applyAll srv.store b.writes ∧
      b.since.now ≤ srv.clock ∧ b.since.serial ≤ srv.serial := by
  obtain ⟨x, hxi, ⟨r', hr', hc, rfl⟩ | ⟨_, _, hc, _⟩ | ⟨hc, _⟩⟩ := close_cases hx
  · cases hc
    obtain ⟨n, H, hr, hn, ht, _⟩ := h.runs i x hxi
    exact ⟨x, _, hxi, rfl, hr, hr', rfl, ht, hn⟩
  · cases hc
  · cases hc

/-- An aborted transaction has run to its abort against the store it leaves. -/
theorem Isolated.abort (h : Isolated prog R F srv) {how : Closing} {op : ο} {r : ρ}
    (hx : srv.close i how = some (srv', .aborted op r)) :
    ∃ x b, srv.sessions i = some x ∧ x.op = op ∧
      Exec (R i) F srv.store (start prog op x.began) b ∧ b.rest = .abort r ∧
      b.since.now ≤ srv.clock := by
  obtain ⟨x, hxi, ⟨_, _, hc, _⟩ | ⟨r', hr', hc, rfl⟩ | ⟨hc, _⟩⟩ := close_cases hx
  · cases hc
  · cases hc
    obtain ⟨n, H, hr, _, ht, _⟩ := h.runs i x hxi
    exact ⟨x, _, hxi, rfl, hr, hr', ht⟩
  · cases hc

/-- Every step keeps the sessions isolated, provided that a statement may see the store that
    it finds, and that what may have been seen in a run against the old store may have been
    seen in one against the new store. -/
theorem Isolated.step (h : Isolated prog R F srv) (hobey : ∀ op, (prog op).Obeys)
    (hF : ∀ e k s s', Agree k s s' → F e k s → F e k s') {c : Option (ι × Closed ρ ο)}
    (hs : Step prog srv c srv')
    (hR : ∀ i now, srv.exec i now = some srv' →
      R i ⟨now, srv.serial⟩ srv.store (srv.free i) srv.store)
    (hFs : ∀ now k, F ⟨now, srv.serial⟩ k srv.store)
    (hR' : ∀ j e v free, R j e v free srv.store → R j e v free srv'.store) :
    Isolated prog R F srv' := by
  cases hs with
  | advance d => exact h.advance d
  | begin i op => exact h.begin op
  | leave i => exact h.leave
  | exec i now hx => exact h.exec hx (hR i now hx) (hFs now)
  | answer i b hx => exact h.answer hx
  | close i how hx => exact h.close hobey hx hR' hF

end Isolation

end Server

end Locking
