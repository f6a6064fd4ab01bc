import Mathlib.Data.List.Lex
import Mathlib.Data.List.Sort
import Mathlib.Order.Fin.Basic
import ScaleQueue.Json

/-!
# Request identity

`canonical` (`services/identity.ts`) renders a JSON value with the members of
every object in the order of their keys, so that requests that differ in that
order only have one text, of which the digest is kept.

* `canonical_append_inj`: the text of a value is read back uniquely, wherever it
  stands in a text, up to the order of object members;
* `canonical_eq_of_same`: values that differ in that order only have one text.
* `canonical_exact`: so the text says what the value is, up to that order.
-/

namespace ScaleQueue

/-- `parts.join(',')`. -/
def join (parts : List Text) : Text := List.intercalate [unit ','] parts

/-- The entries of an object, sorted by their keys. -/
def sortEntries {α : Type} (entries : List (Text × α)) : List (Text × α) :=
  entries.insertionSort fun a b => a.1 ≤ b.1

@[simp] theorem mem_sortEntries {α : Type} {es : List (Text × α)} {e : Text × α} :
    e ∈ sortEntries es ↔ e ∈ es := List.mem_insertionSort _

@[simp] theorem length_sortEntries {α : Type} (es : List (Text × α)) :
    (sortEntries es).length = es.length := List.length_insertionSort _ _

theorem sortEntries_perm {α : Type} (es : List (Text × α)) : (sortEntries es).Perm es :=
  List.perm_insertionSort _ es

/-- Entries with distinct keys are sorted in one way only. -/
theorem sortEntries_congr {α : Type} {es fs : List (Text × α)} (hp : es.Perm fs)
    (hn : (es.map Prod.fst).Nodup) : sortEntries es = sortEntries fs := by
  have hsorted (gs : List (Text × α)) : (sortEntries gs).Pairwise fun a b => a.1 ≤ b.1 :=
    List.pairwise_insertionSort _ gs
  have hperm : (sortEntries es).Perm (sortEntries fs) :=
    (sortEntries_perm es).trans (hp.trans (sortEntries_perm fs).symm)
  refine hperm.eq_of_pairwise (fun a b ha hb hab hba => ?_) (hsorted es) (hsorted fs)
  exact List.inj_on_of_nodup_map hn (mem_sortEntries.1 ha)
    (hp.symm.subset (mem_sortEntries.1 hb)) (le_antisymm hab hba)

mutual

/-- `canonical`: the members of an object are rendered, and then put in the
    order of their keys. -/
def canonical : Json → Text
  | .null => ascii ['n', 'u', 'l', 'l']
  | .bool true => ascii ['t', 'r', 'u', 'e']
  | .bool false => ascii ['f', 'a', 'l', 's', 'e']
  | .num n => n.text
  | .str s => quote s
  | .arr xs => unit '[' :: (join (canonicalAll xs) ++ [unit ']'])
  | .obj ms => unit '{' ::
      (join ((sortEntries (canonicalEntries ms)).map fun e => quote e.1 ++ unit ':' :: e.2) ++
        [unit '}'])

/-- The texts of the elements. -/
def canonicalAll : List Json → List Text
  | [] => []
  | x :: xs => canonical x :: canonicalAll xs

/-- The members, with the texts of their values. -/
def canonicalEntries : List (Text × Json) → List (Text × Text)
  | [] => []
  | (k, v) :: ms => (k, canonical v) :: canonicalEntries ms

end

theorem canonicalAll_eq (xs : List Json) : canonicalAll xs = xs.map canonical := by
  induction xs with
  | nil => rfl
  | cons x xs ih => rw [canonicalAll, ih, List.map_cons]

theorem canonicalEntries_eq (ms : List (Text × Json)) :
    canonicalEntries ms = ms.map fun m => (m.1, canonical m.2) := by
  induction ms with
  | nil => rfl
  | cons m ms ih => rw [canonicalEntries, ih, List.map_cons]

/-- Sorting the rendered members is rendering the sorted members. -/
theorem sortEntries_map {α β : Type} (f : α → β) (es : List (Text × α)) :
    sortEntries (es.map fun e => (e.1, f e.2)) = (sortEntries es).map fun e => (e.1, f e.2) :=
  (List.map_insertionSort _ _ (fun e : Text × α => (e.1, f e.2)) es
    fun _ _ _ _ => Iff.rfl).symm

/-- A member as it stands in the text of its object. -/
def member (m : Text × Json) : Text := quote m.1 ++ unit ':' :: canonical m.2

theorem canonical_arr (xs : List Json) :
    canonical (.arr xs) = unit '[' :: (join (xs.map canonical) ++ [unit ']']) := by
  rw [canonical, canonicalAll_eq]

theorem canonical_obj (ms : List (Text × Json)) :
    canonical (.obj ms) = unit '{' :: (join ((sortEntries ms).map member) ++ [unit '}']) := by
  rw [canonical, canonicalEntries_eq, sortEntries_map, List.map_map]
  rfl

/-! ## Reading the text back -/

/-- The text does not go on with a code unit of a number. -/
def Stops (r : Text) : Prop := ∀ c ∈ r.head?, isNumUnit c = false

theorem stops_cons {c : CodeUnit} (h : isNumUnit c = false) (r : Text) : Stops (c :: r) := by
  simpa [Stops] using h

theorem stops_nil : Stops [] := by simp [Stops]

/-- Where a number ends is known from what follows. -/
theorem takeWhile_num (n : JsonNumber) {r : Text} (hr : Stops r) :
    (n.text ++ r).takeWhile isNumUnit = n.text := by
  rw [List.takeWhile_append_of_pos n.units]
  cases r with
  | nil => simp
  | cons c r => simp [hr c rfl]

theorem num_append_inj {m n : JsonNumber} {r r' : Text} (hr : Stops r) (hr' : Stops r')
    (h : m.text ++ r = n.text ++ r') : m = n ∧ r = r' := by
  have htext : m.text = n.text := by
    rw [← takeWhile_num m hr, ← takeWhile_num n hr', h]
  refine ⟨by cases m; cases n; simp_all, ?_⟩
  rw [htext] at h
  exact List.append_cancel_left h

/-- What kind of value a text starts with, by its first code unit. -/
def kindOf (c : CodeUnit) : ℕ :=
  if c = unit 'n' then 0
  else if c = unit 't' then 1
  else if c = unit 'f' then 2
  else if c = unit '"' then 3
  else if c = unit '[' then 4
  else if c = unit '{' then 5
  else if isNumUnit c then 6
  else 7

/-- What kind of value it is. -/
def kind : Json → ℕ
  | .null => 0
  | .bool true => 1
  | .bool false => 2
  | .str _ => 3
  | .arr _ => 4
  | .obj _ => 5
  | .num _ => 6

/-- A code unit of a number starts a number. -/
theorem kindOf_num {c : CodeUnit} (h : isNumUnit c = true) : kindOf c = 6 := by
  unfold kindOf
  split_ifs <;> first | rfl | (subst c; exact absurd h (by decide))

/-- The first code unit of the text of a value tells what kind it is. -/
theorem canonical_head (x : Json) : ∃ c t, canonical x = c :: t ∧ kindOf c = kind x := by
  cases x with
  | null => exact ⟨_, _, rfl, by decide⟩
  | bool b => cases b <;> exact ⟨_, _, rfl, by decide⟩
  | num n =>
    obtain ⟨c, t, ht⟩ := List.exists_cons_of_ne_nil n.ne_nil
    exact ⟨c, t, ht, kindOf_num (n.units c (ht ▸ List.mem_cons_self))⟩
  | str s => exact ⟨_, _, rfl, show kindOf (unit '"') = 3 by decide⟩
  | arr xs => exact ⟨_, _, canonical_arr xs, show kindOf (unit '[') = 4 by decide⟩
  | obj ms => exact ⟨_, _, canonical_obj ms, show kindOf (unit '{') = 5 by decide⟩

theorem kind_eq {x y : Json} {r r' : Text} (h : canonical x ++ r = canonical y ++ r') :
    kind x = kind y := by
  obtain ⟨c, t, hx, hc⟩ := canonical_head x
  obtain ⟨d, u, hy, hd⟩ := canonical_head y
  rw [hx, hy] at h
  rw [← hc, ← hd, (List.cons.inj h).1]

section Joins

variable {α : Type} {f : α → Text} {Q : α → α → Prop} {close : CodeUnit}

theorem join_cons (x : α) (xs : List α) :
    join ((x :: xs).map f) = f x ++ (xs.map fun y => unit ',' :: f y).flatten := by
  rw [join, List.map_cons]
  induction xs generalizing x with
  | nil => simp [List.intercalate]
  | cons y ys ih =>
    rw [List.map_cons, List.intercalate_cons_cons, ih y]
    simp

/-- The rest of a list of parts, each after a comma, is read back uniquely. -/
theorem tail_read {xs ys : List α} {r r' : Text} (hcomma : close ≠ unit ',')
    (hclose : isNumUnit close = false)
    (hread : ∀ x ∈ xs, ∀ y t t', Stops t → Stops t' → f x ++ t = f y ++ t' → Q x y ∧ t = t')
    (h : (xs.map fun y => unit ',' :: f y).flatten ++ close :: r =
      (ys.map fun y => unit ',' :: f y).flatten ++ close :: r') :
    List.Forall₂ Q xs ys ∧ r = r' := by
  have stops (zs : List α) (t : Text) :
      Stops ((zs.map fun y => unit ',' :: f y).flatten ++ close :: t) := by
    cases zs with
    | nil => exact stops_cons hclose t
    | cons z zs => exact stops_cons (by decide) _
  induction xs generalizing ys with
  | nil =>
    cases ys with
    | nil => exact ⟨.nil, by simpa using h⟩
    | cons y ys => exact absurd (List.cons.inj h).1 hcomma
  | cons x xs ih =>
    cases ys with
    | nil => exact absurd (List.cons.inj h).1.symm hcomma
    | cons y ys =>
      simp only [List.map_cons, List.flatten_cons, List.cons_append, List.append_assoc,
        List.cons.injEq, true_and] at h
      obtain ⟨hxy, ht⟩ := hread x List.mem_cons_self y _ _ (stops xs r) (stops ys r') h
      obtain ⟨hrest, hr⟩ := ih (fun x' hx' => hread x' (List.mem_cons_of_mem _ hx')) ht
      exact ⟨.cons hxy hrest, hr⟩

/-- A list of parts up to a closing bracket is read back uniquely, if each part is. -/
theorem join_read {xs ys : List α} {r r' : Text} (hcomma : close ≠ unit ',')
    (hclose : isNumUnit close = false) (hopen : ∀ x t, (f x ++ t).head? ≠ some close)
    (hread : ∀ x ∈ xs, ∀ y t t', Stops t → Stops t' → f x ++ t = f y ++ t' → Q x y ∧ t = t')
    (h : join (xs.map f) ++ close :: r = join (ys.map f) ++ close :: r') :
    List.Forall₂ Q xs ys ∧ r = r' := by
  cases xs with
  | nil =>
    cases ys with
    | nil => exact ⟨.nil, by simpa [join] using h⟩
    | cons y ys =>
      rw [join_cons, List.append_assoc] at h
      exact absurd (congrArg List.head? h).symm (hopen y _)
  | cons x xs =>
    cases ys with
    | nil =>
      rw [join_cons, List.append_assoc] at h
      exact absurd (congrArg List.head? h) (hopen x _)
    | cons y ys =>
      -- The commas make a list of parts out of an empty first one.
      rw [join_cons, join_cons] at h
      have htail : ((x :: xs).map fun z => unit ',' :: f z).flatten ++ close :: r =
          ((y :: ys).map fun z => unit ',' :: f z).flatten ++ close :: r' := by simpa using h
      exact tail_read hcomma hclose hread htail

end Joins

theorem not_close_of_kind {c : CodeUnit} {x : Json} (hc : kindOf c = 7) (t : Text) :
    (canonical x ++ t).head? ≠ some c := by
  obtain ⟨d, u, hx, hd⟩ := canonical_head x
  rw [hx]
  rintro h
  obtain rfl : d = c := by simpa using h
  rw [hc] at hd
  cases x with
  | bool b => cases b <;> exact absurd hd (by decide)
  | _ => exact absurd hd (by simp [kind])

/-- The text of a value is read back uniquely, wherever it stands in a text, up
    to the order of object members. -/
theorem canonical_append_inj (x y : Json) {r r' : Text} (hr : Stops r) (hr' : Stops r')
    (h : canonical x ++ r = canonical y ++ r') : x.Same y ∧ r = r' := by
  induction x using Json.induct generalizing y r r' with
  | null =>
    cases y with
    | null => exact ⟨trivial, List.append_cancel_left h⟩
    | bool b => cases b <;> exact absurd (kind_eq h) (by decide)
    | _ => exact absurd (kind_eq h) (by simp [kind])
  | bool b =>
    cases y with
    | bool b' =>
      cases b <;> cases b'
      · exact ⟨rfl, List.append_cancel_left h⟩
      · exact absurd (kind_eq h) (by decide)
      · exact absurd (kind_eq h) (by decide)
      · exact ⟨rfl, List.append_cancel_left h⟩
    | _ => cases b <;> exact absurd (kind_eq h) (by simp [kind])
  | num n =>
    cases y with
    | num n' =>
      obtain ⟨rfl, hrr⟩ := num_append_inj hr hr' (by simpa [canonical] using h)
      exact ⟨rfl, hrr⟩
    | bool b => cases b <;> exact absurd (kind_eq h) (by simp [kind])
    | _ => exact absurd (kind_eq h) (by simp [kind])
  | str s =>
    cases y with
    | str s' =>
      obtain ⟨rfl, hrr⟩ := quote_append_inj (by simpa [canonical] using h)
      exact ⟨rfl, hrr⟩
    | bool b => cases b <;> exact absurd (kind_eq h) (by simp [kind])
    | _ => exact absurd (kind_eq h) (by simp [kind])
  | arr xs ih =>
    cases y with
    | arr ys =>
      rw [canonical_arr, canonical_arr] at h
      have hjoin : join (xs.map canonical) ++ unit ']' :: r =
          join (ys.map canonical) ++ unit ']' :: r' := by simpa using h
      obtain ⟨hxy, hrr⟩ := join_read (by decide) (by decide)
        (fun x t => not_close_of_kind (by decide) t)
        (fun x hx y t t' ht ht' => ih x hx y ht ht') hjoin
      exact ⟨Json.sameAll_iff.2 hxy, hrr⟩
    | bool b => cases b <;> exact absurd (kind_eq h) (by simp [kind])
    | _ => exact absurd (kind_eq h) (by simp [kind])
  | obj ms ih =>
    cases y with
    | obj ns =>
      rw [canonical_obj, canonical_obj] at h
      -- A member is read as its key, a colon, and its value.
      have hread : ∀ m ∈ sortEntries ms, ∀ n t t', Stops t → Stops t' →
          member m ++ t = member n ++ t' → (m.1 = n.1 ∧ m.2.Same n.2) ∧ t = t' := by
        intro m hm n t t' ht ht' hmn
        simp only [member, List.append_assoc] at hmn
        obtain ⟨hk, hv⟩ := quote_append_inj hmn
        obtain ⟨hsame, htt⟩ := ih m (mem_sortEntries.1 hm) n.2 ht ht' (by simpa using hv)
        exact ⟨⟨hk, hsame⟩, htt⟩
      have hjoin : join ((sortEntries ms).map member) ++ unit '}' :: r =
          join ((sortEntries ns).map member) ++ unit '}' :: r' := by simpa using h
      obtain ⟨hmn, hrr⟩ := join_read (by decide) (by decide)
        (fun m t => by simp only [member, quote, List.cons_append, List.head?_cons]; decide)
        hread hjoin
      refine ⟨⟨?_, Json.sameMembers_iff.2 fun m hm => ?_⟩, hrr⟩
      · simpa using hmn.length_eq
      · obtain ⟨n, hn, hk, hs⟩ := forall₂_exists hmn (mem_sortEntries.2 hm)
        exact ⟨n.2, hk ▸ mem_sortEntries.1 hn, hs⟩
    | bool b => cases b <;> exact absurd (kind_eq h) (by simp [kind])
    | _ => exact absurd (kind_eq h) (by simp [kind])

/-! ## Values that are the same have the same text -/

/-- The rendered entries of objects with the same members, and as many of them,
    are a permutation of each other. -/
theorem entries_perm {ms ns : List (Text × Json)} (hlen : ms.length = ns.length)
    (hn : (ms.map Prod.fst).Nodup)
    (h : ∀ m ∈ ms, ∃ w, (m.1, w) ∈ ns ∧ canonical m.2 = canonical w) :
    (ms.map fun m => (m.1, canonical m.2)).Perm (ns.map fun n => (n.1, canonical n.2)) := by
  have hnodup : (ms.map fun m => (m.1, canonical m.2)).Nodup :=
    .of_map Prod.fst (by rw [List.map_map]; exact hn)
  refine (List.subperm_of_subset hnodup fun e he => ?_).perm_of_length_le (by simp [hlen])
  obtain ⟨m, hm, rfl⟩ := List.mem_map.1 he
  obtain ⟨w, hw, hc⟩ := h m hm
  exact List.mem_map.2 ⟨(m.1, w), hw, by rw [hc]⟩

/-- Values that differ in the order of object members only have the same text. -/
theorem canonical_eq_of_same {x y : Json} (hx : x.Distinct) (hy : y.Distinct)
    (h : x.Same y) : canonical x = canonical y := by
  induction x using Json.induct generalizing y with
  | null => cases y <;> first | rfl | exact absurd h id
  | bool b => cases y with
    | bool b' => rw [show b = b' from h]
    | _ => exact absurd h id
  | num n => cases y with
    | num n' => rw [show n = n' from h]
    | _ => exact absurd h id
  | str s => cases y with
    | str s' => rw [show s = s' from h]
    | _ => exact absurd h id
  | arr xs ih => cases y with
    | arr ys =>
      have hall := Json.sameAll_iff.1 h
      have hx' := Json.distinctAll_iff.1 hx
      have hy' := Json.distinctAll_iff.1 hy
      have : xs.map canonical = ys.map canonical := by
        clear h hx hy
        induction hall with
        | nil => rfl
        | @cons x y xs ys hxy _ ih' =>
          rw [List.map_cons, List.map_cons, ih x List.mem_cons_self (hx' x List.mem_cons_self)
            (hy' y List.mem_cons_self) hxy]
          rw [ih' (fun z hz => ih z (List.mem_cons_of_mem _ hz))
            (fun z hz => hx' z (List.mem_cons_of_mem _ hz))
            (fun z hz => hy' z (List.mem_cons_of_mem _ hz))]
      rw [canonical_arr, canonical_arr, this]
    | _ => exact absurd h id
  | obj ms ih => cases y with
    | obj ns =>
      obtain ⟨hlen, hmem⟩ := h
      have hmem' := Json.sameMembers_iff.1 hmem
      have hx' := Json.distinctMembers_iff.1 hx.2
      have hy' := Json.distinctMembers_iff.1 hy.2
      have hperm := entries_perm hlen hx.1 fun m hm => by
        obtain ⟨w, hw, hs⟩ := hmem' m hm
        exact ⟨w, hw, ih m hm (hx' m hm) (hy' _ hw) hs⟩
      rw [canonical, canonical, canonicalEntries_eq, canonicalEntries_eq,
        sortEntries_congr hperm (by rw [List.map_map]; exact hx.1)]
    | _ => exact absurd h id

/-- The text of a value says exactly what the value is, up to the order of object
    members at every depth. -/
theorem canonical_exact {x y : Json} (hx : x.Distinct) (hy : y.Distinct) :
    canonical x = canonical y ↔ x.Same y := by
  constructor
  · intro h
    exact (canonical_append_inj x y stops_nil stops_nil (by rw [h])).1
  · exact canonical_eq_of_same hx hy

/-- Two members in either order have one text. -/
theorem canonical_exact_swapped :
    canonical (.obj [(ascii ['a'], .null), (ascii ['b'], .arr [.bool true])]) =
      canonical (.obj [(ascii ['b'], .arr [.bool true]), (ascii ['a'], .null)]) := by
  refine (canonical_exact ?_ ?_).2 ?_
  · exact ⟨by decide, trivial, ⟨trivial, trivial⟩, trivial⟩
  · exact ⟨by decide, ⟨trivial, trivial⟩, trivial, trivial⟩
  · exact ⟨rfl, ⟨.null, .tail _ (.head _), trivial⟩, ⟨_, .head _, rfl, trivial⟩, trivial⟩

end ScaleQueue
