import Mathlib.Algebra.BigOperators.Group.List.Basic
import Mathlib.Algebra.GroupWithZero.Nat
import Mathlib.Data.List.Chain

/-!
# Logs of transitions

Things of many kinds (`κ`) are in states, and a log has an entry for each transition of
each of them: the state it has left, if it was in any, and the one it has entered. If the
entries of each thing lead from none to the state it is in (`Leads`), then the log says how
many things there are in each state: those that have entered it, but for those that have
left it (`balance`), and how many there are at all: those that have left none
(`length_eq`).
-/

namespace Flow

variable {α β κ ρ : Type} {src : α → Option β} {dst : α → β}

variable (src dst) in
/-- The entries lead from no state to `b`. -/
structure Leads (es : List α) (b : β) : Prop where
  first : ∃ e ∈ es.head?, src e = none
  chain : es.IsChain fun e e' => src e' = some (dst e)
  last : ∃ e ∈ es.getLast?, dst e = b

/-- What a chain of transitions enters, and what it leaves. -/
theorem chain_balance [DecidableEq β] (b c : β) {e : α} {es : List α}
    (h : (e :: es).IsChain fun e e' => src e' = some (dst e))
    (hlast : ∃ e' ∈ (e :: es).getLast?, dst e' = b) :
    (if b = c then 1 else 0) + (e :: es).countP (src · = some c) =
      (e :: es).countP (dst · = c) + if src e = some c then 1 else 0 := by
  induction es generalizing e with
  | nil =>
    obtain ⟨e', he', rfl⟩ := hlast
    obtain rfl : e = e' := by simpa using he'
    simp only [List.countP_singleton, decide_eq_true_eq]
  | cons e' es ih =>
    obtain ⟨hsrc, hchain⟩ := List.isChain_cons_cons.1 h
    have htail := ih hchain (by simpa [List.getLast?_cons_cons] using hlast)
    simp only [hsrc, Option.some.injEq] at htail
    rw [List.countP_cons, List.countP_cons (p := (dst · = c))]
    simp only [decide_eq_true_eq]
    omega

theorem Leads.balance [DecidableEq β] {es : List α} {b : β} (h : Leads src dst es b) (c : β) :
    (if b = c then 1 else 0) + es.countP (src · = some c) = es.countP (dst · = c) := by
  obtain ⟨e, he, hnone⟩ := h.first
  cases es with
  | nil => cases he
  | cons e' es =>
    obtain rfl : e' = e := by simpa using he
    simpa [hnone] using chain_balance b c h.chain h.last

/-- An entry is the first one, or comes after another. -/
theorem mem_chain {R : α → α → Prop} {e e' : α} {es : List α} (h : (e :: es).IsChain R)
    (he' : e' ∈ e :: es) : e' = e ∨ ∃ e'', R e'' e' := by
  induction es generalizing e with
  | nil => exact .inl (by simpa using he')
  | cons f es ih =>
    obtain ⟨hR, hchain⟩ := List.isChain_cons_cons.1 h
    rcases List.mem_cons.1 he' with rfl | he'
    · exact .inl rfl
    · rcases ih hchain he' with rfl | hafter
      · exact .inr ⟨e, hR⟩
      · exact .inr hafter

theorem chain_started {e : α} {es : List α}
    (h : (e :: es).IsChain fun e e' => src e' = some (dst e)) : es.countP (src · = none) = 0 := by
  induction es generalizing e with
  | nil => rfl
  | cons e' es ih =>
    obtain ⟨hsrc, hchain⟩ := List.isChain_cons_cons.1 h
    rw [List.countP_cons, ih hchain]
    simp [hsrc]

/-- Only the first transition is out of no state. -/
theorem Leads.starts_once {es : List α} {b : β} (h : Leads src dst es b) :
    es.countP (src · = none) = 1 := by
  obtain ⟨e, he, hnone⟩ := h.first
  cases es with
  | nil => cases he
  | cons e' es =>
    obtain rfl : e' = e := by simpa using he
    rw [List.countP_cons, chain_started h.chain]
    simp [hnone]

section Rows

variable [DecidableEq κ] {rows : List ρ} {log : List α} {key : α → κ} {id : ρ → κ} {state : ρ → β}

theorem sum_map_ite (k : κ) (n : ℕ) (hids : (rows.map id).Nodup) :
    (rows.map fun r => if k = id r then n else 0).sum = if k ∈ rows.map id then n else 0 := by
  induction rows with
  | nil => rfl
  | cons r rows ih =>
    obtain ⟨hnot, hids⟩ := List.nodup_cons.1 hids
    rw [List.map_cons, List.sum_cons, ih hids]
    by_cases hk : k = id r
    · subst hk
      rw [if_pos rfl, if_neg hnot, if_pos (List.mem_map_of_mem List.mem_cons_self), Nat.add_zero]
    · simp [hk]

/-- The entries of a log are those of the things in the rows. -/
theorem countP_eq_sum (hids : (rows.map id).Nodup) (hkeys : ∀ e ∈ log, key e ∈ rows.map id)
    (p : α → Bool) :
    log.countP p = (rows.map fun r => (log.filter (key · = id r)).countP p).sum := by
  induction log with
  | nil => simp
  | cons e log ih =>
    have hsum := sum_map_ite (key e) (if p e then 1 else 0) hids
    rw [if_pos (hkeys e List.mem_cons_self)] at hsum
    rw [List.countP_cons, ih fun e he => hkeys e (List.mem_cons_of_mem _ he), ← hsum,
      ← List.sum_map_add]
    refine congrArg List.sum (List.map_congr_left fun r _ => ?_)
    by_cases hk : key e = id r
    · rw [List.filter_cons_of_pos (by simpa using hk), List.countP_cons, if_pos hk]
    · rw [List.filter_cons_of_neg (by simpa using hk), if_neg hk, Nat.add_zero]

variable (hids : (rows.map id).Nodup) (hkeys : ∀ e ∈ log, key e ∈ rows.map id)
  (h : ∀ r ∈ rows, Leads src dst (log.filter (key · = id r)) (state r))

include hids hkeys h

/-- The things in a state are those that have entered it, but for those that have left it. -/
theorem balance [DecidableEq β] (c : β) :
    rows.countP (state · = c) + log.countP (src · = some c) = log.countP (dst · = c) := by
  have hcount : rows.countP (state · = c) =
      (rows.map fun r => if state r = c then 1 else 0).sum := by
    clear hids hkeys h
    induction rows with
    | nil => rfl
    | cons r rows ih => rw [List.countP_cons, ih, List.map_cons, List.sum_cons, Nat.add_comm]; simp
  rw [hcount, countP_eq_sum hids hkeys, countP_eq_sum hids hkeys, ← List.sum_map_add]
  exact congrArg List.sum (List.map_congr_left fun r hr => (h r hr).balance c)

theorem length_eq : rows.length = log.countP (src · = none) := by
  rw [countP_eq_sum hids hkeys, List.map_congr_left fun r hr => (h r hr).starts_once]
  simp

end Rows

end Flow
