import Mathlib.Data.List.Basic
import Mathlib.Data.List.Pairwise
import Mathlib.Tactic.Tauto
import ScaleQueue.Redis

/-!
# Scanning all that is pending

A pending list is in the order of the ids (`Key.Ordered`). A successful XAUTOCLAIM is a
`Scan` from one cursor to the next: it claims what it passes and has been idle for
long enough, in order. Scans that go on where the last one stopped, from the beginning
until the cursor is back at `0`, are a sweep: they pass every id once (`Sweep.covers`),
and there are no more of them than ids (`Sweep.length_le`).
-/

namespace Redis

variable {φ χ : Type}

/-! ## Order -/

/-- The pending entries are in the order of their ids, and nothing after the last
    delivered entry is pending. -/
structure Key.Ordered (key : Key φ χ) : Prop extends key.Sound where
  sorted : ∀ g, key.group = some g → (g.pending.map (·.entry.id)).Pairwise (· < ·)
  id_pos : ∀ g, key.group = some g → ∀ p ∈ g.pending, 0 < p.entry.id
  id_le : ∀ g, key.group = some g → ∀ p ∈ g.pending, p.entry.id ≤ g.last

/-- A scan changes neither the entries nor their order. -/
theorem scan_entries (consumer : χ) (now minIdle visits count : ℕ) (ps : List (Pending φ χ)) :
    (scan consumer now minIdle visits count ps).2.1.map (·.entry) = ps.map (·.entry) := by
  induction ps generalizing visits count with
  | nil => cases visits <;> simp [scan]
  | cons p ps ih =>
    cases visits with
    | zero => rfl
    | succ visits =>
      cases count with
      | zero => rfl
      | succ count =>
        rw [scan]
        split
        · simpa using ih visits count
        · simpa using ih visits (count + 1)

/-- A scan passes some of the entries, at least one if it can, and claims those of them
    that have been idle for long enough. -/
theorem scan_take (consumer : χ) (now minIdle visits count : ℕ) (ps : List (Pending φ χ)) :
    ∃ k, (0 < visits → 0 < count → ps ≠ [] → 0 < k) ∧
      (scan consumer now minIdle visits count ps).1 =
        ((ps.take k).filter fun p => p.delivered + minIdle ≤ now).map (·.entry) ∧
      (scan consumer now minIdle visits count ps).2.2 = cursorOf (ps.drop k) := by
  induction ps generalizing visits count with
  | nil =>
    exact ⟨0, by simp, by cases visits <;> simp [scan], by cases visits <;> simp [scan, cursorOf]⟩
  | cons p ps ih =>
    cases visits with
    | zero => exact ⟨0, by simp, rfl, rfl⟩
    | succ visits =>
      cases count with
      | zero => exact ⟨0, by simp, rfl, rfl⟩
      | succ count =>
        rw [scan]
        split
        · rename_i hidle
          obtain ⟨k, -, hes, hnext⟩ := ih visits count
          exact ⟨k + 1, by simp, by simp [hidle, hes], hnext⟩
        · rename_i hidle
          obtain ⟨k, -, hes, hnext⟩ := ih visits (count + 1)
          exact ⟨k + 1, by simp, by simp [hidle, hes], hnext⟩

section Order

variable {key : Key φ χ}

theorem Key.Ordered.xadd (h : key.Ordered) (values : φ) : (key.xadd values).Ordered := by
  have hgroup {g : Group φ χ} (hg : (key.xadd values).group = some g) : key.group = some g := by
    obtain ⟨s, hs, hsg⟩ := group_eq_some.1 hg
    unfold Key.xadd at hs
    split at hs
    · obtain rfl := Option.some.inj hs
      cases hsg
    · rename_i hs'
      obtain rfl := Option.some.inj hs
      exact group_eq_some.2 ⟨_, hs', hsg⟩
  exact ⟨h.toSound.xadd values, fun g hg => h.sorted g (hgroup hg),
    fun g hg => h.id_pos g (hgroup hg), fun g hg => h.id_le g (hgroup hg)⟩

theorem Key.Ordered.xgroupCreateMkStream (h : key.Ordered) : key.xgroupCreateMkStream.Ordered := by
  have hgroup {g : Group φ χ} (hg : key.xgroupCreateMkStream.group = some g) :
      key.group = some g ∨ g.pending = [] := by
    obtain ⟨s, hs, hsg⟩ := group_eq_some.1 hg
    unfold Key.xgroupCreateMkStream at hs
    split at hs
    · obtain rfl := Option.some.inj hs
      exact .inr (by rw [← Option.some.inj hsg])
    · split at hs
      · obtain rfl := Option.some.inj hs
        exact .inr (by rw [← Option.some.inj hsg])
      · exact .inl (group_eq_some.2 ⟨_, hs, hsg⟩)
  refine ⟨h.toSound.xgroupCreateMkStream, fun g hg => ?_, fun g hg => ?_, fun g hg => ?_⟩
  all_goals obtain hold | hnil := hgroup hg
  · exact h.sorted g hold
  · simp [hnil]
  · exact h.id_pos g hold
  · simp [hnil]
  · exact h.id_le g hold
  · simp [hnil]

theorem Key.Ordered.del (h : key.Ordered) : key.del.Ordered where
  toSound := h.toSound.del
  sorted g hg := by cases hg
  id_pos g hg := by cases hg
  id_le g hg := by cases hg

/-- The pending list may lose entries, if it keeps the order of the others. -/
theorem Key.Ordered.shrink (h : key.Ordered) {g g' : Group φ χ} (hg : key.group = some g)
    (hs : (key.setGroup g').Sound) (hlast : g'.last = g.last)
    (hsub : (g'.pending.map (·.entry)).Sublist (g.pending.map (·.entry))) :
    (key.setGroup g').Ordered := by
  have hmem {p : Pending φ χ} (hp : p ∈ g'.pending) : ∃ q ∈ g.pending, q.entry = p.entry :=
    List.mem_map.1 (hsub.subset (List.mem_map_of_mem hp))
  refine ⟨hs, fun g₁ hg₁ => ?_, fun g₁ hg₁ p hp => ?_, fun g₁ hg₁ p hp => ?_⟩
  all_goals obtain rfl := group_setGroup hg₁
  · have hsorted := h.sorted g hg
    have hids := hsub.map (·.id)
    rw [List.map_map, List.map_map] at hids
    exact hsorted.sublist hids
  · obtain ⟨q, hq, heq⟩ := hmem hp
    exact heq ▸ h.id_pos g hg q hq
  · obtain ⟨q, hq, heq⟩ := hmem hp
    exact hlast ▸ heq ▸ h.id_le g hg q hq

theorem Key.Ordered.xack (h : key.Ordered) (id : ℕ) : (key.xack id).Ordered := by
  have hs := h.toSound.xack id
  unfold Key.xack at hs ⊢
  split
  · exact h
  · rename_i g hg
    rw [hg] at hs
    exact h.shrink hg hs rfl (List.filter_sublist.map _)

theorem Key.Ordered.xreadgroup (h : key.Ordered) {consumer : χ} {now : ℕ} {o : Option (Entry φ)}
    {key' : Key φ χ} (hx : key.xreadgroup consumer now = some (o, key')) : key'.Ordered := by
  have hs := h.toSound.xreadgroup hx
  unfold Key.xreadgroup at hx
  split at hx
  · simp at hx
  · rename_i g hg
    split at hx
    · obtain ⟨-, rfl⟩ := Prod.mk.inj (Option.some.inj hx)
      exact h
    · rename_i e he
      obtain ⟨-, rfl⟩ := Prod.mk.inj (Option.some.inj hx)
      -- The entry is delivered for the first time, after all that are pending.
      have hlt : g.last < e.id := by simpa using List.find?_some he
      refine ⟨hs, fun g' hg' => ?_, fun g' hg' p hp => ?_, fun g' hg' p hp => ?_⟩
      all_goals obtain rfl := group_setGroup hg'
      · rw [List.map_append, List.pairwise_append]
        refine ⟨h.sorted g hg, List.pairwise_singleton _ _, fun i hi j hj => ?_⟩
        obtain ⟨p, hp, rfl⟩ := List.mem_map.1 hi
        obtain rfl := List.mem_singleton.1 hj
        exact Nat.lt_of_le_of_lt (h.id_le g hg p hp) hlt
      · obtain hp | hp := List.mem_append.1 hp
        · exact h.id_pos g hg p hp
        · obtain rfl := List.mem_singleton.1 hp
          exact Nat.zero_lt_of_lt hlt
      · obtain hp | hp := List.mem_append.1 hp
        · exact Nat.le_trans (h.id_le g hg p hp) (Nat.le_of_lt hlt)
        · obtain rfl := List.mem_singleton.1 hp
          exact Nat.le_refl _

theorem Key.Ordered.xautoclaim (h : key.Ordered) {consumer : χ} {now minIdle start count next : ℕ}
    {es : List (Entry φ)} {key' : Key φ χ}
    (hx : key.xautoclaim consumer now minIdle start count = some (es, next, key')) :
    key'.Ordered := by
  have hs := h.toSound.xautoclaim hx
  unfold Key.xautoclaim at hx
  split at hx
  · simp at hx
  · rename_i g hg
    simp only [Option.some.injEq, Prod.mk.injEq] at hx
    obtain ⟨-, -, rfl⟩ := hx
    refine h.shrink hg hs rfl ?_
    rw [List.map_append, scan_entries, ← List.map_append, List.takeWhile_append_dropWhile]

end Order

/-! ## Scans -/

/-- A successful XAUTOCLAIM from `start` to `next`, of what was pending at `now`. -/
structure Scan (φ χ : Type) where
  start : ℕ
  next : ℕ
  now : ℕ
  pending : List (Pending φ χ)

namespace Scan

variable (c : Scan φ χ)

/-- The scan passes the id. -/
def Covers (id : ℕ) : Prop := c.start ≤ id ∧ (c.next = 0 ∨ id < c.next)

instance (id : ℕ) : Decidable (c.Covers id) :=
  inferInstanceAs (Decidable (c.start ≤ id ∧ (c.next = 0 ∨ id < c.next)))

/-- What the scan passes and has been idle for long enough. -/
def due (minIdle : ℕ) : List (Entry φ) :=
  (c.pending.filter fun p => c.Covers p.entry.id ∧ p.delivered + minIdle ≤ c.now).map (·.entry)

/-- A scan goes forward, or to the end, through entries in the order of their ids. -/
structure Forward : Prop where
  lt : c.next = 0 ∨ c.start < c.next
  sorted : (c.pending.map (·.entry.id)).Pairwise (· < ·)

variable {c}

theorem due_sorted (h : c.Forward) (minIdle : ℕ) :
    ((c.due minIdle).map (·.id)).Pairwise (· < ·) := by
  rw [due, List.map_map]
  exact h.sorted.sublist (List.filter_sublist.map _)

theorem mem_due {minIdle : ℕ} {e : Entry φ} : e ∈ c.due minIdle ↔
    ∃ p ∈ c.pending, p.entry = e ∧ c.Covers e.id ∧ p.delivered + minIdle ≤ c.now := by
  simp only [due, List.mem_map, List.mem_filter, decide_eq_true_eq]
  constructor
  · rintro ⟨p, ⟨hp, hc, hidle⟩, rfl⟩
    exact ⟨p, hp, rfl, hc, hidle⟩
  · rintro ⟨p, hp, rfl, hc, hidle⟩
    exact ⟨p, ⟨hp, hc, hidle⟩, rfl⟩

end Scan

/-- The ids before a point of a list in order, and those after it. -/
theorem takeWhile_dropWhile_lt {ps : List (Pending φ χ)} {n : ℕ}
    (h : (ps.map (·.entry.id)).Pairwise (· < ·)) :
    ps.dropWhile (·.entry.id < n) = ps.filter (n ≤ ·.entry.id) := by
  induction ps with
  | nil => rfl
  | cons p ps ih =>
    rw [List.map_cons, List.pairwise_cons] at h
    by_cases hp : p.entry.id < n
    · simp [hp, Nat.not_le.2 hp, ih h.2]
    · have hall : ps.filter (n ≤ ·.entry.id) = ps := List.filter_eq_self.2 fun q hq => by
        have := h.1 _ (List.mem_map_of_mem hq)
        simp only [decide_eq_true_eq]
        omega
      simp [hp, Nat.not_lt.1 hp, hall]

/-- The entries before the `k`-th are those with an id before that of the `k`-th. -/
theorem take_eq_filter {ps : List (Pending φ χ)} (h : (ps.map (·.entry.id)).Pairwise (· < ·))
    (hpos : ∀ p ∈ ps, 0 < p.entry.id) (k : ℕ) :
    ps.take k = ps.filter fun p =>
      cursorOf (ps.drop k) = 0 ∨ p.entry.id < cursorOf (ps.drop k) := by
  have hsplit := List.take_append_drop k ps
  cases hdrop : ps.drop k with
  | nil =>
    rw [hdrop, List.append_nil] at hsplit
    rw [hsplit]
    simp [cursorOf]
  | cons q rest =>
    rw [hdrop] at hsplit
    have hq : 0 < q.entry.id := hpos q (hsplit ▸ List.mem_append_right _ List.mem_cons_self)
    rw [← hsplit, List.map_append, List.pairwise_append] at h
    obtain ⟨-, hrest, hlt⟩ := h
    rw [List.map_cons, List.pairwise_cons] at hrest
    -- The cursor is the first entry that is left, and parts the list.
    have hbefore : (ps.take k).filter (fun p => cursorOf (q :: rest) = 0 ∨
        p.entry.id < cursorOf (q :: rest)) = ps.take k := List.filter_eq_self.2 fun p hp => by
      have hpq : p.entry.id < q.entry.id := hlt _ (List.mem_map_of_mem hp) _ List.mem_cons_self
      simp [cursorOf, hpq]
    have hafter : (q :: rest).filter (fun p => cursorOf (q :: rest) = 0 ∨
        p.entry.id < cursorOf (q :: rest)) = [] := List.filter_eq_nil_iff.2 fun p hp => by
      have hle : q.entry.id ≤ p.entry.id := by
        obtain rfl | hp := List.mem_cons.1 hp
        · exact Nat.le_refl _
        · exact Nat.le_of_lt (hrest.1 _ (List.mem_map_of_mem hp))
      intro hdec
      obtain h₀ | hlt' := of_decide_eq_true hdec
      · exact Nat.ne_of_gt hq h₀
      · exact Nat.not_lt.2 hle hlt'
    calc ps.take k = (ps.take k ++ q :: rest).filter (fun p => cursorOf (q :: rest) = 0 ∨
          p.entry.id < cursorOf (q :: rest)) := by
            rw [List.filter_append, hbefore, hafter, List.append_nil]
      _ = _ := by rw [hsplit]

/-- XAUTOCLAIM claims what it passes and has been idle for long enough, in order. -/
theorem Key.Ordered.scan {key : Key φ χ} (h : key.Ordered) {consumer : χ}
    {now minIdle start count next : ℕ} {es : List (Entry φ)} {key' : Key φ χ} {g : Group φ χ}
    (hx : key.xautoclaim consumer now minIdle start count = some (es, next, key'))
    (hg : key.group = some g) (hcount : 0 < count) :
    (Scan.mk start next now g.pending).Forward ∧
      es = (Scan.mk start next now g.pending).due minIdle ∧ next < key.nextId := by
  have hsorted := h.sorted g hg
  simp only [Key.xautoclaim, hg, Option.some.injEq, Prod.mk.injEq] at hx
  obtain ⟨hes, hnext, -⟩ := hx
  obtain ⟨k, hk, hes', hnext'⟩ := scan_take consumer now minIdle (10 * count) count
    (g.pending.dropWhile (·.entry.id < start))
  rw [hes, takeWhile_dropWhile_lt hsorted] at hes'
  rw [hnext, takeWhile_dropWhile_lt hsorted] at hnext'
  rw [takeWhile_dropWhile_lt hsorted] at hk
  generalize hqs : g.pending.filter (start ≤ ·.entry.id) = qs at hes' hnext' hk
  have hmem {p : Pending φ χ} (hp : p ∈ qs) : p ∈ g.pending ∧ start ≤ p.entry.id := by
    simpa [← hqs] using hp
  have hqsorted : (qs.map (·.entry.id)).Pairwise (· < ·) := by
    rw [← hqs]
    exact hsorted.sublist (List.filter_sublist.map _)
  refine ⟨⟨?_, hsorted⟩, ?_, ?_⟩
  · cases hdrop : qs.drop k with
    | nil => exact .inl (by rw [hnext', hdrop, cursorOf])
    | cons q rest =>
      -- Something was taken before the entry that the scan stops at.
      have hsplit := List.take_append_drop k qs
      have hne : qs ≠ [] := by
        rintro rfl
        simp at hdrop
      obtain ⟨p, hp⟩ := List.exists_mem_of_length_pos (l := qs.take k) (by
        rw [List.length_take]
        have := hk (by omega) hcount hne
        have := List.length_pos_iff.2 hne
        omega)
      rw [hdrop] at hsplit
      rw [← hsplit, List.map_append, List.pairwise_append] at hqsorted
      have hlt := hqsorted.2.2 _ (List.mem_map_of_mem hp) _ List.mem_cons_self
      refine .inr (Nat.lt_of_le_of_lt (hmem (List.mem_of_mem_take hp)).2 ?_)
      rwa [hnext', hdrop, cursorOf]
  · rw [hes', take_eq_filter hqsorted fun p hp => h.id_pos g hg p (hmem hp).1, ← hnext', ← hqs,
      List.filter_filter, List.filter_filter, Scan.due]
    congr 1
    refine List.filter_congr fun p _ => ?_
    rw [Bool.eq_iff_iff]
    simp only [Bool.and_eq_true, decide_eq_true_eq]
    rw [Scan.Covers]
    tauto
  · rw [hnext']
    cases hdrop : qs.drop k with
    | nil => exact h.nextId_pos
    | cons q rest =>
      have hq := (hmem (List.mem_of_mem_drop (hdrop ▸ List.mem_cons_self))).1
      exact Nat.lt_of_le_of_lt (h.id_le g hg q hq) (h.last_lt g hg)

/-! ## Sweeps -/

/-- Scans from the cursor `0` to where the cursor is now: each goes on where the last one
    stopped. -/
inductive Scans : List (Scan φ χ) → ℕ → Prop
  | start : Scans [] 0
  | scan {cs : List (Scan φ χ)} {c : Scan φ χ} (h : Scans cs c.start) (hc : c.Forward) :
      Scans (cs ++ [c]) c.next

/-- The scans of a sweep so far, which has not come to the end before its last scan. -/
inductive Sweep : List (Scan φ χ) → ℕ → Prop
  | start : Sweep [] 0
  | scan {cs : List (Scan φ χ)} {c : Scan φ χ} (h : Sweep cs c.start)
      (hopen : cs = [] ∨ c.start ≠ 0) (hc : c.Forward) : Sweep (cs ++ [c]) c.next

variable {cs : List (Scan φ χ)} {cursor : ℕ}

theorem Scans.last (h : Scans cs cursor) : cs = [] ∨ ∃ c ∈ cs, c.next = cursor := by
  cases h with
  | start => exact .inl rfl
  | scan => exact .inr ⟨_, List.mem_append_right _ List.mem_cons_self, rfl⟩

theorem Scans.sweep (h : Scans cs cursor) (hopen : ∀ c ∈ cs.dropLast, c.next ≠ 0) :
    Sweep cs cursor := by
  induction h with
  | start => exact .start
  | @scan cs c h hc ih =>
    rw [List.dropLast_concat] at hopen
    refine .scan (ih fun c' hc' => hopen c' (List.dropLast_subset _ hc')) ?_ hc
    obtain hnil | ⟨c', hc', heq⟩ := h.last
    · exact .inl hnil
    · exact .inr (heq ▸ hopen c' hc')

/-- A sweep claims entries in the order of their ids, all of them behind the cursor. -/
theorem Sweep.due_sorted (h : Sweep cs cursor) (minIdle : ℕ) :
    ((cs.flatMap (·.due minIdle)).map (·.id)).Pairwise (· < ·) ∧
      (cursor ≠ 0 → ∀ e ∈ cs.flatMap (·.due minIdle), e.id < cursor) := by
  induction h with
  | start => simp
  | @scan cs c h hopen hc ih =>
    have hbehind : ∀ e ∈ cs.flatMap (·.due minIdle), e.id < c.start := by
      obtain rfl | hne := hopen
      · simp
      · exact ih.2 hne
    have hcovers {e : Entry φ} (he : e ∈ c.due minIdle) : c.Covers e.id :=
      (Scan.mem_due.1 he).choose_spec.2.2.1
    simp only [List.flatMap_append, List.flatMap_singleton]
    refine ⟨?_, fun hnext e he => ?_⟩
    · rw [List.map_append, List.pairwise_append]
      refine ⟨ih.1, Scan.due_sorted hc minIdle, fun i hi j hj => ?_⟩
      obtain ⟨e, he, rfl⟩ := List.mem_map.1 hi
      obtain ⟨e', he', rfl⟩ := List.mem_map.1 hj
      exact Nat.lt_of_lt_of_le (hbehind e he) (hcovers he').1
    · obtain he | he := List.mem_append.1 he
      · exact Nat.lt_trans (hbehind e he) (hc.lt.resolve_left hnext)
      · exact (hcovers he).2.resolve_left hnext

theorem Sweep.ne_nil (h : Sweep cs cursor) (hne : cursor ≠ 0) : cs ≠ [] := by
  rintro rfl
  generalize hcs : ([] : List (Scan φ χ)) = cs at h
  cases h with
  | start => exact hne rfl
  | scan => simp at hcs

/-- Behind the cursor, or when it is back at `0`, every id was passed once. -/
theorem Sweep.covers (h : Sweep cs cursor) (id : ℕ) :
    (cs ≠ [] → cursor = 0 ∨ id < cursor → ∃ before c after, cs = before ++ c :: after ∧
      c.Covers id ∧ ∀ c' ∈ before ++ after, ¬ c'.Covers id) ∧
    (cs = [] ∨ cursor ≠ 0 → cursor ≤ id → ∀ c ∈ cs, ¬ c.Covers id) := by
  induction h with
  | start => simp
  | @scan cs c h hopen hc ih =>
    refine ⟨fun _ hid => ?_, fun hne hid c' hc' => ?_⟩
    · obtain hlt | hle := Nat.lt_or_ge id c.start
      · -- The id was passed before.
        obtain ⟨before, c', after, heq, hc', hno⟩ := ih.1 (h.ne_nil (by omega)) (.inr hlt)
        refine ⟨before, c', after ++ [c], by simp [heq], hc', fun c'' hc'' => ?_⟩
        rw [← List.append_assoc] at hc''
        obtain hc'' | hc'' := List.mem_append.1 hc''
        · exact hno c'' hc''
        · obtain rfl := List.mem_singleton.1 hc''
          exact fun hcov => Nat.not_lt.2 hcov.1 hlt
      · refine ⟨cs, c, [], rfl, ⟨hle, hid⟩, ?_⟩
        rw [List.append_nil]
        exact ih.2 hopen hle
    · have hnext : c.next ≠ 0 := hne.resolve_left (by simp)
      obtain hc' | hc' := List.mem_append.1 hc'
      · exact ih.2 hopen (by have := hc.lt; omega) c' hc'
      · obtain rfl := List.mem_singleton.1 hc'
        exact fun hcov => Nat.not_lt.2 hid (hcov.2.resolve_left hnext)

/-- There are at most as many scans before the end of a sweep as ids behind the cursor. -/
theorem Sweep.length_le (h : Sweep cs cursor) : cursor ≠ 0 → cs.length ≤ cursor := by
  induction h with
  | start => simp
  | @scan cs c h hopen hc ih =>
    intro hne
    have hlt := hc.lt.resolve_left hne
    rw [List.length_append, List.length_singleton]
    obtain rfl | hstart := hopen
    · simp
      omega
    · have := ih hstart
      omega

end Redis
