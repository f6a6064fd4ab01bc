import Mathlib.Data.List.Chain
import Mathlib.Data.List.Sort
import Mathlib.Data.List.Perm.Basic
import Mathlib.Data.List.Flatten

/-!
# Paging through a sorted query

A query for some rows in descending order of a key, of which a client asks for one
page after the other. SQL promises the order of the keys, and nothing about rows with
equal keys: each time the query is answered they may come in another order
(`Answers`).

`exact_iff` says when the pages, up to the first empty one, hold every row exactly
once however the queries are answered: when no page ends between rows with equal keys
(`Clear`).
-/

namespace Paging

variable {α β κ : Type} [LinearOrder κ] (key : α → κ)

/-- An answer to the query for the rows in descending order of the key. -/
structure Answers (rows out : List α) : Prop where
  perm : out.Perm rows
  sorted : out.Pairwise fun a b => key b ≤ key a

/-- The page `k`, of at most `L` rows. -/
def page (L : ℕ) (out : List α) (k : ℕ) : List α := (out.drop (k * L)).take L

/-- No page ends between rows with equal keys. -/
def Clear (L : ℕ) (rows : List α) : Prop :=
  ∀ r ∈ rows, ∀ k, ¬ (rows.countP (key r < key ·) < k * L ∧ k * L < rows.countP (key r ≤ key ·))

/-- However the queries are answered, the pages up to the first empty one hold every
    row exactly once, as they are shown. -/
def Exact (view : α → β) (L : ℕ) (rows : List α) : Prop :=
  ∀ out : ℕ → List α, (∀ k, Answers key rows (out k)) →
    ∃ m, page L (out m) m = [] ∧ (∀ k < m, page L (out k) k ≠ []) ∧
      (((List.range m).flatMap fun k => page L (out k) k).map view).Perm (rows.map view)

variable {key} {view : α → β} {L : ℕ} {rows out : List α}

/-! ## No tie at the end of a page -/

/-- Fewer than `n` rows come before `r` in every order. -/
def before (key : α → κ) (rows : List α) (n : ℕ) (r : α) : Bool := rows.countP (key r < key ·) < n

theorem Answers.before_of_mem_take (h : Answers key rows out) {n : ℕ} {r : α}
    (hr : r ∈ out.take n) : before key rows n r = true := by
  have hsorted := h.sorted
  rw [← List.take_append_drop n out, List.pairwise_append] at hsorted
  have htake : (out.take n).countP (key r < key ·) < n := by
    refine Nat.lt_of_lt_of_le ?_ (List.length_take_le n out)
    refine Nat.lt_of_le_of_ne List.countP_le_length fun heq => ?_
    simpa using List.countP_eq_length.1 heq r hr
  have hdrop : (out.drop n).countP (key r < key ·) = 0 :=
    List.countP_eq_zero.2 fun b hb => by simpa using hsorted.2.2 r hr b hb
  rw [before, decide_eq_true_eq, ← h.perm.countP_eq, ← List.take_append_drop n out,
    List.countP_append, hdrop]
  simpa using htake

theorem Answers.not_before_of_mem_drop (h : Answers key rows out) (hclear : Clear key L rows)
    {k : ℕ} {r : α} (hr : r ∈ out.drop (k * L)) : before key rows (k * L) r = false := by
  have hsorted := h.sorted
  rw [← List.take_append_drop (k * L) out, List.pairwise_append] at hsorted
  have hlen : (out.take (k * L)).length = k * L := by
    have := List.length_pos_of_mem hr
    rw [List.length_drop] at this
    rw [List.length_take]
    omega
  have htake : (out.take (k * L)).countP (key r ≤ key ·) = k * L :=
    (List.countP_eq_length.2 fun b hb => by simpa using hsorted.2.2 b hb r hr).trans hlen
  have hdrop : 0 < (out.drop (k * L)).countP (key r ≤ key ·) :=
    List.countP_pos_iff.2 ⟨r, hr, by simp⟩
  have hge : k * L < rows.countP (key r ≤ key ·) := by
    rw [← h.perm.countP_eq, ← List.take_append_drop (k * L) out, List.countP_append, htake]
    omega
  rw [before, decide_eq_false_iff_not]
  exact fun hlt => hclear r (h.perm.subset (List.mem_of_mem_drop hr)) k ⟨hlt, hge⟩

/-- Without ties at the ends of pages, every answer has the same rows on a page. -/
theorem Answers.page_eq (h : Answers key rows out) (hclear : Clear key L rows) (k : ℕ) :
    page L out k =
      out.filter fun r => before key rows ((k + 1) * L) r && !before key rows (k * L) r := by
  have hsplit : out.take ((k + 1) * L) = out.take (k * L) ++ page L out k := by
    rw [Nat.succ_mul, List.take_add, page]
  have hnext : out.take ((k + 1) * L) = out.filter (before key rows ((k + 1) * L)) := by
    conv_rhs => rw [← List.take_append_drop ((k + 1) * L) out, List.filter_append]
    rw [List.filter_eq_self.2 fun r hr => h.before_of_mem_take hr,
      List.filter_eq_nil_iff.2 fun r hr => by simp [h.not_before_of_mem_drop hclear hr],
      List.append_nil]
  have hfilter : (out.filter fun r =>
      before key rows ((k + 1) * L) r && !before key rows (k * L) r) =
      (out.take ((k + 1) * L)).filter fun r => !before key rows (k * L) r := by
    rw [hnext, List.filter_filter]
    simp only [Bool.and_comm]
  rw [hfilter, hsplit, List.filter_append,
    List.filter_eq_nil_iff.2 fun r hr => by simp [h.before_of_mem_take hr],
    List.filter_eq_self.2 fun r hr => ?_, List.nil_append]
  simpa using h.not_before_of_mem_drop hclear (List.mem_of_mem_take hr)

theorem before_mono {n n' : ℕ} (h : n ≤ n') {r : α} (hr : before key rows n r = true) :
    before key rows n' r = true := by
  simp only [before, decide_eq_true_eq] at hr ⊢
  omega

/-- Together, the first pages hold the rows before their end. -/
theorem pages_perm (hclear : Clear key L rows) {out : ℕ → List α}
    (h : ∀ k, Answers key rows (out k)) (m : ℕ) :
    ((List.range m).flatMap fun k => page L (out k) k).Perm
      (rows.filter (before key rows (m * L))) := by
  induction m with
  | zero => simp [before]
  | succ m ih =>
    have hpage : (page L (out m) m).Perm ((rows.filter (before key rows ((m + 1) * L))).filter
        fun r => !before key rows (m * L) r) := by
      rw [(h m).page_eq hclear, List.filter_filter]
      simpa only [Bool.and_comm] using (h m).perm.filter _
    have hprev : rows.filter (before key rows (m * L)) =
        (rows.filter (before key rows ((m + 1) * L))).filter (before key rows (m * L)) := by
      rw [List.filter_filter]
      refine List.filter_congr fun r _ => ?_
      cases hb : before key rows (m * L) r with
      | false => rfl
      | true => simp [before_mono (Nat.mul_le_mul_right L (Nat.le_succ m)) hb]
    rw [List.range_succ, List.flatMap_append, List.flatMap_singleton]
    exact (ih.append hpage).trans (hprev ▸ List.filter_append_perm _ _)

theorem page_eq_nil (hL : 0 < L) (h : Answers key rows out) {k : ℕ} :
    page L out k = [] ↔ rows.length ≤ k * L := by
  rw [page, List.take_eq_nil_iff, List.drop_eq_nil_iff, h.perm.length_eq]
  omega

/-- No page ends between rows with equal keys where there are none. -/
theorem clear_of_nodup (h : (rows.map key).Nodup) : Clear key L rows := by
  rintro r - k ⟨hlt, hle⟩
  have hsplit : rows.countP (key r ≤ key ·) =
      rows.countP (key r < key ·) + (rows.map key).count (key r) := by
    clear h hlt hle
    induction rows with
    | nil => rfl
    | cons a rows ih =>
      simp only [List.countP_cons, List.map_cons, List.count_cons, ih]
      rcases lt_trichotomy (key r) (key a) with h | h | h
      · simp [h, h.le, h.ne']
        omega
      · simp [h]
        omega
      · simp [h.not_ge, h.not_gt, h.ne]
  have hone := List.nodup_iff_count_le_one.1 h (key r)
  omega

theorem Clear.exact (hclear : Clear key L rows) (hL : 0 < L) : Exact key view L rows := by
  intro out h
  have hex : ∃ m, rows.length ≤ m * L := ⟨rows.length, Nat.le_mul_of_pos_right _ hL⟩
  refine ⟨Nat.find hex, (page_eq_nil hL (h _)).2 (Nat.find_spec hex),
    fun k hk hnil => Nat.find_min hex hk ((page_eq_nil hL (h k)).1 hnil), ?_⟩
  refine (pages_perm hclear h _).map view |>.trans ?_
  rw [List.filter_eq_self.2 fun r hr => ?_]
  have hlt : rows.countP (key r < key ·) < rows.length := by
    refine Nat.lt_of_le_of_ne List.countP_le_length fun heq => ?_
    simpa using List.countP_eq_length.1 heq r hr
  exact decide_eq_true (hlt.trans_le (Nat.find_spec hex))

/-! ## A tie at the end of a page -/

/-- The rows on both sides of the end of a page that lies within a tie have equal keys. -/
theorem Answers.tied {xs ys : List α} {a b r : α} (h : Answers key rows (xs ++ a :: b :: ys))
    (hlt : rows.countP (key r < key ·) < xs.length + 1)
    (hle : xs.length + 1 < rows.countP (key r ≤ key ·)) : key a = key b := by
  have hsorted := h.sorted
  rw [List.pairwise_append, List.pairwise_cons, List.pairwise_cons] at hsorted
  obtain ⟨-, ⟨ha, hb, -⟩, hxs⟩ := hsorted
  rw [← h.perm.countP_eq] at hlt hle
  have hba : key b ≤ key a := ha b List.mem_cons_self
  have har : key a ≤ key r := by
    by_contra hra
    rw [not_le] at hra
    have hall : xs.countP (key r < key ·) = xs.length := List.countP_eq_length.2 fun x hx => by
      simpa using hra.trans_le (hxs x hx a List.mem_cons_self)
    simp only [List.countP_append, List.countP_cons, hall, hra, decide_true, if_true] at hlt
    omega
  have hrb : key r ≤ key b := by
    by_contra hbr
    have hnone : ys.countP (key r ≤ key ·) = 0 := List.countP_eq_zero.2 fun y hy => by
      simpa using (hb y hy).trans_lt (not_le.1 hbr)
    have hcount : (xs ++ [a]).countP (key r ≤ key ·) ≤ xs.length + 1 :=
      List.countP_le_length.trans (by simp)
    rw [List.append_cons xs a, List.countP_append, List.countP_cons, hnone] at hle
    simp only [hbr, decide_false] at hle
    exact absurd (hle.trans_le hcount) (Nat.lt_irrefl _)
  exact le_antisymm (har.trans hrb) hba

/-- Every query has an answer. -/
theorem exists_answer (key : α → κ) (rows : List α) : ∃ out, Answers key rows out :=
  ⟨rows.insertionSort fun a b => key b ≤ key a, List.perm_insertionSort _ _, by
    have : Std.Total fun a b : α => key b ≤ key a := ⟨fun a b => le_total _ _⟩
    have : IsTrans α fun a b : α => key b ≤ key a := ⟨fun a b c hab hbc => hbc.trans hab⟩
    exact List.pairwise_insertionSort _ _⟩

/-- Neighbours with equal keys may be answered the other way round. -/
theorem Answers.swap {xs ys : List α} {a b : α} (h : Answers key rows (xs ++ a :: b :: ys))
    (hab : key a = key b) : Answers key rows (xs ++ b :: a :: ys) where
  perm := ((List.Perm.swap a b ys).append_left xs).trans h.perm
  sorted := by
    have := h.sorted
    simp only [List.pairwise_append, List.pairwise_cons, List.mem_cons, forall_eq_or_imp,
      hab] at this ⊢
    tauto

/-- The rows are the only answer if and only if they come in strict order. -/
theorem answers_unique_iff (hn : rows.Nodup) :
    (∀ out, Answers key rows out → out = rows) ↔ rows.Pairwise fun a b => key b < key a := by
  constructor
  · intro h
    obtain ⟨out, hout⟩ := exists_answer key rows
    obtain rfl := h out hout
    have : IsTrans α fun a b => key b < key a := ⟨fun a b c hab hbc => hbc.trans hab⟩
    rw [← List.isChain_iff_pairwise, List.isChain_iff_forall_rel_of_append_cons_cons]
    rintro a b xs ys rfl
    have hsorted := List.pairwise_append.1 hout.sorted
    have hle : key b ≤ key a := List.rel_of_pairwise_cons hsorted.2.1 List.mem_cons_self
    refine lt_of_le_of_ne hle fun hab => ?_
    -- Answered the other way round, `a` and `b` are in each other's place.
    obtain ⟨rfl, -⟩ : b = a ∧ _ := by simpa using h _ (hout.swap hab.symm)
    simp [List.nodup_append] at hn
  · intro h out hout
    have hkeys : (rows.map key).Nodup := List.pairwise_map.2 (h.imp ne_of_gt)
    refine hout.perm.eq_of_pairwise (fun a b ha hb hba hab => ?_) hout.sorted (h.imp le_of_lt)
    exact List.inj_on_of_nodup_map hkeys (hout.perm.subset ha) hb (le_antisymm hab hba)

/-- Of two rows at the end of a page that lies within a tie, one may be shown on both
    pages, and the other on none. -/
theorem Exact.clear (h : Exact key view L rows) (hL : 0 < L) (hn : (rows.map view).Nodup) :
    Clear key L rows := by
  rintro r - k ⟨hlt, hle⟩
  obtain ⟨out, hout⟩ := exists_answer key rows
  have hlen : k * L < out.length := by
    rw [hout.perm.length_eq]
    exact hle.trans_le List.countP_le_length
  obtain ⟨k, rfl⟩ : ∃ k', k = k' + 1 := Nat.exists_eq_succ_of_ne_zero (by rintro rfl; omega)
  -- The end of page `k` is between `a` and `b`.
  obtain ⟨n, hkn⟩ : ∃ n, (k + 1) * L = n + 1 :=
    Nat.exists_eq_succ_of_ne_zero (Nat.mul_ne_zero (by omega) (by omega))
  obtain ⟨xs, a, b, ys, hsplit, hxs⟩ : ∃ xs a b ys, out = xs ++ a :: b :: ys ∧ xs.length = n := by
    refine ⟨out.take n, out[n], out[n + 1], out.drop (n + 2), ?_, ?_⟩
    · rw [← List.drop_eq_getElem_cons, ← List.drop_eq_getElem_cons, List.take_append_drop]
    · rw [List.length_take]
      omega
  subst hsplit
  rw [hkn, ← hxs] at hlt hle
  have hswap := hout.swap (hout.tied hlt hle)
  obtain ⟨m, hnil, -, hperm⟩ := h
    (fun i => if i ≤ k then xs ++ a :: b :: ys else xs ++ b :: a :: ys)
    fun i => by split_ifs <;> assumption
  have hm : k + 1 < m := by
    by_contra hle'
    have hanswer : Answers key rows
        (if m ≤ k then xs ++ a :: b :: ys else xs ++ b :: a :: ys) := by split_ifs <;> assumption
    have := (page_eq_nil hL hanswer).1 hnil
    rw [← hout.perm.length_eq] at this
    have := Nat.mul_le_mul_right L (Nat.le_of_not_lt hle')
    omega
  -- The row `a` is on the pages `k` and `k + 1`.
  rw [Nat.succ_mul] at hkn
  have hfirst : a ∈ page L (xs ++ a :: b :: ys) k := by
    refine List.mem_of_getElem? (i := n - k * L) ?_
    rw [page, List.getElem?_take_of_lt (by omega), List.getElem?_drop,
      show k * L + (n - k * L) = xs.length by omega]
    simp
  have hsecond : a ∈ page L (xs ++ b :: a :: ys) (k + 1) := by
    rw [page, Nat.succ_mul, hkn, ← hxs, List.append_cons, List.drop_left' (by simp)]
    obtain ⟨l, rfl⟩ := Nat.exists_eq_succ_of_ne_zero hL.ne'
    exact List.mem_cons_self
  have hnodup := (List.nodup_flatMap.1 (List.Nodup.of_map _ (hperm.nodup_iff.2 hn))).2
  have hdisjoint := List.pairwise_iff_getElem.1 hnodup k (k + 1) (by simp; omega) (by simp; omega)
    (Nat.lt_succ_self k)
  simp only [List.getElem_range, Function.onFun, le_refl, if_true, Nat.not_succ_le_self,
    if_false] at hdisjoint
  exact hdisjoint hfirst hsecond

/-- Paging is exact if and only if no page ends between rows with equal keys. -/
theorem exact_iff (hL : 0 < L) (hn : (rows.map view).Nodup) :
    Exact key view L rows ↔ Clear key L rows :=
  ⟨fun h => h.clear hL hn, fun h => h.exact hL⟩

end Paging
