import Mathlib.Data.Fin.Basic
import Mathlib.Data.List.Basic
import Mathlib.Data.List.Forall2
import Mathlib.Data.List.Nodup
import Mathlib.Data.List.Perm.Subperm
import Mathlib.Tactic.Cases

/-!
# JSON values and their texts

Texts are sequences of UTF-16 code units, as the strings of JavaScript are. A
JSON value is what `JSON.parse` produces: a number is known by the text it
renders to, and the members of an object have distinct keys (`Json.Distinct`).

* `Json.Same`: two values are the same up to the order of object members, at
  every depth;
* `member?`: the value of a member, by its name (`member?_same`: values that are the same
  have the same members);
* `jsonNat`: a natural number as a JSON value;
* `quote`: a string as `JSON.stringify` renders it, between quotes and with the
  escapes of the language;
* `quote_append_inj`: a quoted string is read back uniquely, wherever it stands
  in a text.
-/

/-- A UTF-16 code unit. -/
abbrev CodeUnit := Fin 65536

/-- A string of JavaScript. -/
abbrev Text := List CodeUnit

/-- The code unit of an ASCII character. -/
def unit (c : Char) : CodeUnit := Fin.ofNat 65536 c.toNat

/-- The text of ASCII characters. -/
def ascii (cs : List Char) : Text := cs.map unit

/-- The code units that may occur in the text of a number. -/
def isNumUnit (c : CodeUnit) : Bool :=
  (48 ≤ c && c ≤ 57) || c == unit '-' || c == unit '+' || c == unit '.' || c == unit 'e'

/-- A finite number, as the text it renders to. -/
structure JsonNumber where
  text : Text
  ne_nil : text ≠ []
  units : ∀ c ∈ text, isNumUnit c = true
  deriving DecidableEq

/-- A value, with the members of an object in the order in which they came. -/
inductive Json
  | null
  | bool (b : Bool)
  | num (n : JsonNumber)
  | str (s : Text)
  | arr (xs : List Json)
  | obj (ms : List (Text × Json))

theorem forall₂_exists {α β : Type} {Q : α → β → Prop} {xs : List α} {ys : List β}
    (h : List.Forall₂ Q xs ys) {x : α} (hx : x ∈ xs) : ∃ y ∈ ys, Q x y := by
  induction h with
  | nil => exact absurd hx List.not_mem_nil
  | cons hxy _ ih =>
    rcases List.mem_cons.1 hx with rfl | hx
    · exact ⟨_, List.mem_cons_self, hxy⟩
    · obtain ⟨y, hy, hq⟩ := ih hx
      exact ⟨y, List.mem_cons_of_mem _ hy, hq⟩

namespace Json

/-- Induction on values, with the hypothesis for every element and every member. -/
@[elab_as_elim]
theorem induct {P : Json → Prop} (null : P null) (bool : ∀ b, P (bool b))
    (num : ∀ n, P (num n)) (str : ∀ s, P (str s))
    (arr : ∀ xs : List Json, (∀ x ∈ xs, P x) → P (arr xs))
    (obj : ∀ ms : List (Text × Json), (∀ m ∈ ms, P m.2) → P (obj ms)) (x : Json) : P x :=
  Json.rec (motive_1 := P) (motive_2 := fun xs => ∀ x ∈ xs, P x)
    (motive_3 := fun ms => ∀ m ∈ ms, P m.2) (motive_4 := fun m => P m.2)
    null bool num str arr obj
    (fun _ h => absurd h List.not_mem_nil)
    (fun _ _ hx hxs _ h => (List.mem_cons.1 h).elim (fun e => e ▸ hx) (hxs _))
    (fun _ h => absurd h List.not_mem_nil)
    (fun _ _ hm hms _ h => (List.mem_cons.1 h).elim (fun e => e ▸ hm) (hms _))
    (fun _ _ h => h) x

mutual

/-- The keys of every object in the value are distinct. -/
def Distinct : Json → Prop
  | .arr xs => DistinctAll xs
  | .obj ms => (ms.map Prod.fst).Nodup ∧ DistinctMembers ms
  | _ => True

/-- So they are in every element. -/
def DistinctAll : List Json → Prop
  | [] => True
  | x :: xs => x.Distinct ∧ DistinctAll xs

/-- So they are in the value of every member. -/
def DistinctMembers : List (Text × Json) → Prop
  | [] => True
  | (_, v) :: ms => v.Distinct ∧ DistinctMembers ms

end

mutual

/-- The values are the same, up to the order of object members at every depth. -/
def Same : Json → Json → Prop
  | .null, .null => True
  | .bool a, .bool b => a = b
  | .num m, .num n => m = n
  | .str s, .str t => s = t
  | .arr xs, .arr ys => SameAll xs ys
  | .obj ms, .obj ns => ms.length = ns.length ∧ SameMembers ms ns
  | _, _ => False

/-- The elements are the same, in the same order. -/
def SameAll : List Json → List Json → Prop
  | [], [] => True
  | x :: xs, y :: ys => Same x y ∧ SameAll xs ys
  | _, _ => False

/-- Every member is, up to the order inside of it, a member of the other object. -/
def SameMembers : List (Text × Json) → List (Text × Json) → Prop
  | [], _ => True
  | (k, v) :: ms, ns => (∃ w, (k, w) ∈ ns ∧ Same v w) ∧ SameMembers ms ns

end

theorem distinctAll_iff {xs : List Json} : DistinctAll xs ↔ ∀ x ∈ xs, x.Distinct := by
  induction xs with
  | nil => simp [DistinctAll]
  | cons x xs ih => simp [DistinctAll, ih]

theorem distinctMembers_iff {ms : List (Text × Json)} :
    DistinctMembers ms ↔ ∀ m ∈ ms, m.2.Distinct := by
  induction ms with
  | nil => simp [DistinctMembers]
  | cons m ms ih => simp [DistinctMembers, ih]

theorem sameAll_iff {xs ys : List Json} : SameAll xs ys ↔ List.Forall₂ Same xs ys := by
  induction xs generalizing ys with
  | nil => cases ys <;> simp [SameAll]
  | cons x xs ih => cases ys <;> simp [SameAll, ih]

theorem sameMembers_iff {ms ns : List (Text × Json)} :
    SameMembers ms ns ↔ ∀ m ∈ ms, ∃ w, (m.1, w) ∈ ns ∧ Same m.2 w := by
  induction ms with
  | nil => simp [SameMembers]
  | cons m ms ih => simp [SameMembers, ih]

theorem same_refl (x : Json) : x.Same x := by
  induction x using Json.induct with
  | null => trivial
  | bool b => rfl
  | num n => rfl
  | str s => rfl
  | arr xs ih => exact sameAll_iff.2 (List.forall₂_same.2 ih)
  | obj ms ih => exact ⟨rfl, sameMembers_iff.2 fun m hm => ⟨m.2, hm, ih m hm⟩⟩

/-- `Object.keys`, of an object. -/
def keys : Json → List Text
  | .obj ms => ms.map Prod.fst
  | _ => []

/-- Objects that are the same have the same keys. -/
theorem Same.keys_perm {ms ns : List (Text × Json)} (h : (obj ms).Same (.obj ns))
    (hm : (ms.map Prod.fst).Nodup) : (ms.map Prod.fst).Perm (ns.map Prod.fst) := by
  have hsub : ms.map Prod.fst ⊆ ns.map Prod.fst := fun k hk => by
    obtain ⟨m, hmem, rfl⟩ := List.mem_map.1 hk
    obtain ⟨w, hw, -⟩ := sameMembers_iff.1 h.2 m hmem
    exact List.mem_map.2 ⟨_, hw, rfl⟩
  exact (List.subperm_of_subset hm hsub).perm_of_length_le (by simp [h.1])

/-- A key is found with one value in objects that are the same. -/
theorem Same.symm {x y : Json} (h : x.Same y) (hx : x.Distinct) (hy : y.Distinct) :
    y.Same x := by
  induction x using Json.induct generalizing y with
  | arr xs ih =>
    cases y with
    | arr ys =>
      have hall := sameAll_iff.1 h
      refine sameAll_iff.2 (List.forall₂_iff_get.2 ⟨hall.length_eq.symm, fun i hi hi' => ?_⟩)
      exact ih _ (xs.get_mem _) (hall.get hi' hi) (distinctAll_iff.1 hx _ (xs.get_mem _))
        (distinctAll_iff.1 hy _ (ys.get_mem _))
    | _ => exact absurd h id
  | obj ms ih =>
    cases y with
    | obj ns =>
      refine ⟨h.1.symm, sameMembers_iff.2 fun n hn => ?_⟩
      have hkey := List.mem_map_of_mem (f := Prod.fst) hn
      obtain ⟨m, hm, hk⟩ := List.mem_map.1 ((h.keys_perm hx.1).symm.subset hkey)
      obtain ⟨w, hw, hsame⟩ := sameMembers_iff.1 h.2 m hm
      obtain rfl : (m.1, w) = n := List.inj_on_of_nodup_map hy.1 hw hn hk
      exact ⟨m.2, hm, ih m hm hsame (distinctMembers_iff.1 hx.2 m hm)
        (distinctMembers_iff.1 hy.2 _ hn)⟩
    | _ => exact absurd h id
  | null =>
    cases y with
    | null => trivial
    | _ => exact absurd h id
  | _ => cases y <;> first | exact absurd h id | exact Eq.symm h

/-- Only the same string is the same as a string. -/
theorem str_same {s : Text} {y : Json} (h : (str s).Same y) : y = str s := by
  cases y <;> first | exact absurd h id | exact congrArg _ (Eq.symm h)

theorem num_same {n : JsonNumber} {y : Json} (h : (num n).Same y) : y = num n := by
  cases y <;> first | exact absurd h id | exact congrArg _ (Eq.symm h)

end Json

/-! ## Members by name -/

/-- The value of a member of an object. -/
def member? (ms : List (Text × Json)) (name : String) : Option Json :=
  (ms.find? (·.1 = ascii name.toList)).map (·.2)

section Members

variable {ms ns : List (Text × Json)} {name : String} {x : Json}

theorem member?_distinct (h : (Json.obj ms).Distinct) (hx : member? ms name = some x) :
    x.Distinct := by
  obtain ⟨m, hm, rfl⟩ := Option.map_eq_some_iff.1 hx
  exact Json.distinctMembers_iff.1 h.2 m (List.mem_of_find?_eq_some hm)

theorem member?_eq_some (h : (ms.map Prod.fst).Nodup) :
    member? ms name = some x ↔ (ascii name.toList, x) ∈ ms := by
  rw [member?, Option.map_eq_some_iff]
  constructor
  · rintro ⟨m, hm, rfl⟩
    have hkey : m.1 = ascii name.toList := by simpa using List.find?_some hm
    exact hkey ▸ List.mem_of_find?_eq_some hm
  · intro hx
    obtain ⟨m, hm⟩ : ∃ m, ms.find? (·.1 = ascii name.toList) = some m := by
      rw [← Option.isSome_iff_exists, List.find?_isSome]
      exact ⟨_, hx, by simp⟩
    have hkey : m.1 = ascii name.toList := by simpa using List.find?_some hm
    refine ⟨m, hm, ?_⟩
    have := List.inj_on_of_nodup_map h (List.mem_of_find?_eq_some hm) hx hkey
    rw [this]

/-- Objects that are the same have the same members. -/
theorem member?_same (h : (Json.obj ms).Same (.obj ns)) (hm : (ms.map Prod.fst).Nodup)
    (hn : (ns.map Prod.fst).Nodup) :
    Option.Rel Json.Same (member? ms name) (member? ns name) := by
  cases hx : member? ms name with
  | some x =>
    obtain ⟨w, hw, hsame⟩ := Json.sameMembers_iff.1 h.2 _ ((member?_eq_some hm).1 hx)
    rw [(member?_eq_some hn).2 hw]
    exact .some hsame
  | none =>
    cases hy : member? ns name with
    | none => exact .none
    | some y =>
      have hkey := List.mem_map_of_mem (f := Prod.fst) ((member?_eq_some hn).1 hy)
      obtain ⟨⟨k, v⟩, hmem, rfl⟩ := List.mem_map.1 ((h.keys_perm hm).symm.subset hkey)
      cases hx.symm.trans ((member?_eq_some hm).2 hmem)

end Members

/-! ## Natural numbers -/

/-- The text of a natural number. -/
def natText (n : ℕ) : Text := ascii (Nat.toDigits 10 n)

theorem natText_ne_nil (n : ℕ) : natText n ≠ [] := by simp [natText, ascii]

theorem isNumUnit_of_isDigit {c : Char} (h : c.isDigit) : isNumUnit (unit c) = true := by
  simp only [Char.isDigit, Bool.and_eq_true, decide_eq_true_eq, ge_iff_le,
    UInt32.le_iff_toNat_le] at h
  have h₁ : 48 ≤ c.toNat := h.1
  have h₂ : c.toNat ≤ 57 := h.2
  have hval : (unit c).val = c.toNat := Nat.mod_eq_of_lt (by omega)
  have hle : (48 : CodeUnit) ≤ unit c ∧ unit c ≤ 57 :=
    ⟨Fin.le_def.2 (hval ▸ h₁), Fin.le_def.2 (hval ▸ h₂)⟩
  simp [isNumUnit, hle]

/-- The digits of a number can be read off its text. -/
theorem natText_chars (n : ℕ) :
    (natText n).map (fun c => Char.ofNat c.val) = Nat.toDigits 10 n := by
  rw [natText, ascii, List.map_map]
  refine (List.map_congr_left fun c hc => ?_).trans (List.map_id _)
  have hdigit : c.isDigit = true := Nat.isDigit_of_mem_toDigits (by decide) (by decide) hc
  simp only [Char.isDigit, Bool.and_eq_true, decide_eq_true_eq, ge_iff_le,
    UInt32.le_iff_toNat_le] at hdigit
  have hle : c.toNat ≤ 57 := hdigit.2
  have hval : (unit c).val = c.toNat := Nat.mod_eq_of_lt (by omega)
  rw [Function.comp_apply, hval, Char.ofNat_toNat, id]

theorem natText_inj {m n : ℕ} (h : natText m = natText n) : m = n := by
  have hchars : Nat.toDigits 10 m = Nat.toDigits 10 n := by
    rw [← natText_chars, ← natText_chars, h]
  rw [← Nat.ofDigitChars_toDigits (b := 10) (n := m) (by decide) (by decide), hchars,
    Nat.ofDigitChars_toDigits (b := 10) (n := n) (by decide) (by decide)]

/-- A natural number as a JSON value. -/
def jsonNat (n : ℕ) : Json :=
  .num ⟨natText n, natText_ne_nil n, fun c hc => by
    obtain ⟨d, hd, rfl⟩ := List.mem_map.1 hc
    exact isNumUnit_of_isDigit (Nat.isDigit_of_mem_toDigits (by decide) (by decide) hd)⟩

theorem jsonNat_inj {m n : ℕ} (h : jsonNat m = jsonNat n) : m = n :=
  natText_inj (JsonNumber.mk.inj (Json.num.inj h))

/-! ## Strings between quotes -/

/-- A leading surrogate. -/
def isLead (c : CodeUnit) : Bool := 0xD800 ≤ c && c ≤ 0xDBFF

/-- A trailing surrogate. -/
def isTrail (c : CodeUnit) : Bool := 0xDC00 ≤ c && c ≤ 0xDFFF

/-- A lower-case hexadecimal digit. -/
def hexDigit (d : ℕ) : CodeUnit := Fin.ofNat 65536 (if d < 10 then 48 + d else 87 + d)

/-- The escape `\uXXXX`. -/
def unicodeEscape (c : CodeUnit) : Text :=
  [unit '\\', unit 'u', hexDigit (c / 4096), hexDigit (c / 256 % 16), hexDigit (c / 16 % 16),
    hexDigit (c % 16)]

/-- A code unit outside of a surrogate pair, as it stands between quotes. -/
def quoteUnit (c : CodeUnit) : Text :=
  if c = 8 then [unit '\\', unit 'b']
  else if c = 9 then [unit '\\', unit 't']
  else if c = 10 then [unit '\\', unit 'n']
  else if c = 12 then [unit '\\', unit 'f']
  else if c = 13 then [unit '\\', unit 'r']
  else if c = unit '"' then [unit '\\', unit '"']
  else if c = unit '\\' then [unit '\\', unit '\\']
  else if c < 0x20 || isLead c || isTrail c then unicodeEscape c
  else [c]

/-- What stands between the quotes. -/
def quoteBody : Text → Text
  | [] => []
  | [c] => quoteUnit c
  | c :: d :: rest =>
    -- A surrogate pair stands for itself, a lone surrogate is escaped.
    if isLead c && isTrail d then c :: d :: quoteBody rest
    else quoteUnit c ++ quoteBody (d :: rest)

/-- `JSON.stringify` of a string. -/
def quote (s : Text) : Text := unit '"' :: (quoteBody s ++ [unit '"'])

/-! ### Reading them back -/

/-- The value of a hexadecimal digit. -/
def hexValue (c : CodeUnit) : ℕ := if (c : ℕ) < 58 then c - 48 else c - 87

/-- The code unit a short escape stands for. -/
def unescape (c : CodeUnit) : CodeUnit :=
  if c = unit 'b' then 8
  else if c = unit 't' then 9
  else if c = unit 'n' then 10
  else if c = unit 'f' then 12
  else if c = unit 'r' then 13
  else c

/-- Reading up to the closing quote: the string read, and the text after it. -/
def unquote : Text → Option (Text × Text)
  | [] => none
  | c :: rest =>
    if c = unit '"' then some ([], rest)
    else if c = unit '\\' then
      match rest with
      | [] => none
      | u :: rest' =>
        if u = unit 'u' then
          match rest' with
          | h₃ :: h₂ :: h₁ :: h₀ :: rest'' => (unquote rest'').map fun p =>
              (Fin.ofNat 65536 (hexValue h₃ * 4096 + hexValue h₂ * 256 + hexValue h₁ * 16 +
                hexValue h₀) :: p.1, p.2)
          | _ => none
        else (unquote rest').map fun p => (unescape u :: p.1, p.2)
    else (unquote rest).map fun p => (c :: p.1, p.2)

theorem hexValue_hexDigit : ∀ d < 16, hexValue (hexDigit d) = d := by decide

/-- A code unit standing for itself is read as itself. -/
theorem unquote_plain {c : CodeUnit} (hq : c ≠ unit '"') (hb : c ≠ unit '\\') (rest : Text) :
    unquote (c :: rest) = (unquote rest).map fun p => (c :: p.1, p.2) := by
  rw [unquote.eq_def]
  simp only [if_neg hq, if_neg hb]

theorem unquote_short {u : CodeUnit} (hu : u ≠ unit 'u') (rest : Text) :
    unquote (unit '\\' :: u :: rest) = (unquote rest).map fun p => (unescape u :: p.1, p.2) := by
  rw [unquote.eq_def]
  simp only [if_neg (show unit '\\' ≠ unit '"' by decide), if_true, if_neg hu]

@[simp] theorem unquote_close (rest : Text) : unquote (unit '"' :: rest) = some ([], rest) := by
  rw [unquote.eq_def]
  simp only [if_true]

theorem unquote_unicodeEscape (c : CodeUnit) (rest : Text) :
    unquote (unicodeEscape c ++ rest) = (unquote rest).map fun p => (c :: p.1, p.2) := by
  have h₃ := hexValue_hexDigit (c / 4096) (by have := c.isLt; omega)
  have h₂ := hexValue_hexDigit (c / 256 % 16) (Nat.mod_lt _ (by decide))
  have h₁ := hexValue_hexDigit (c / 16 % 16) (Nat.mod_lt _ (by decide))
  have h₀ := hexValue_hexDigit (c % 16) (Nat.mod_lt _ (by decide))
  have hc : Fin.ofNat 65536 ((c : ℕ) / 4096 * 4096 + (c : ℕ) / 256 % 16 * 256 +
      (c : ℕ) / 16 % 16 * 16 + (c : ℕ) % 16) = c := by
    rw [show (c : ℕ) / 4096 * 4096 + (c : ℕ) / 256 % 16 * 256 + (c : ℕ) / 16 % 16 * 16 +
      (c : ℕ) % 16 = c by omega]
    exact Fin.ofNat_val_eq_self c
  simp only [unicodeEscape, List.cons_append, List.nil_append]
  rw [unquote.eq_def]
  simp only [if_neg (show unit '\\' ≠ unit '"' by decide), if_true, h₃, h₂, h₁, h₀, hc]

theorem unquote_quoteUnit (c : CodeUnit) (rest : Text) :
    unquote (quoteUnit c ++ rest) = (unquote rest).map fun p => (c :: p.1, p.2) := by
  unfold quoteUnit
  split_ifs with h₁ h₂ h₃ h₄ h₅ hq hb h
  · subst h₁; exact unquote_short (by decide) rest
  · subst h₂; exact unquote_short (by decide) rest
  · subst h₃; exact unquote_short (by decide) rest
  · subst h₄; exact unquote_short (by decide) rest
  · subst h₅; exact unquote_short (by decide) rest
  · subst hq; exact unquote_short (by decide) rest
  · subst hb; exact unquote_short (by decide) rest
  · exact unquote_unicodeEscape c rest
  · exact unquote_plain hq hb rest

/-- Surrogates are neither quotes nor backslashes. -/
theorem plain_of_surrogate {c : CodeUnit} (h : isLead c = true ∨ isTrail c = true) :
    c ≠ unit '"' ∧ c ≠ unit '\\' := by
  constructor <;> rintro rfl <;> revert h <;> decide

theorem unquote_quoteBody (s rest : Text) :
    unquote (quoteBody s ++ unit '"' :: rest) = some (s, rest) := by
  induction s using quoteBody.induct with
  | case1 => simp [quoteBody]
  | case2 c => simp [quoteBody, unquote_quoteUnit]
  | case3 c d s h ih =>
    have hcd := Bool.and_eq_true_iff.1 h
    have hc := plain_of_surrogate (.inl hcd.1)
    have hd := plain_of_surrogate (.inr hcd.2)
    rw [quoteBody, if_pos h, List.cons_append, List.cons_append, unquote_plain hc.1 hc.2,
      unquote_plain hd.1 hd.2, ih]
    rfl
  | case4 c d s h ih =>
    rw [quoteBody, if_neg h, List.append_assoc, unquote_quoteUnit, ih]
    rfl

/-- A quoted string is read back uniquely, wherever it stands in a text. -/
theorem quote_append_inj {s t r r' : Text} (h : quote s ++ r = quote t ++ r') :
    s = t ∧ r = r' := by
  simp only [quote, List.cons_append, List.append_assoc, List.cons.injEq, true_and,
    List.nil_append] at h
  have := (unquote_quoteBody s r).symm.trans ((congrArg unquote h).trans (unquote_quoteBody t r'))
  simpa using this
