import ScaleQueue.Json

/-!
# Schemas for JSON values

A schema makes a value of the value it is given, if there is one, or tells where it finds
fault (`Schema`). `Zod` is what is known of the combinators that schemas are made of: what
each accepts, what it makes of it, and where it finds fault otherwise.

A schema is regular (`Schema.Regular`) if it does not see the order in which the members
of an object come, at any depth, and leaves what it has made as it is when given it again.
Schemas that are made of regular ones are regular: `Zod.enum_regular`,
`Zod.record_regular` and `Zod.int_regular` are the leaves, and `Schema.Regular.refine`,
`Schema.Regular.default` and `Zod.object_regular` the steps.
-/

namespace Zod

/-- The paths, from the top of a value, at which there are faults, each once. -/
abbrev Paths := List (List String)

/-- What becomes of a value, or of none. -/
abbrev Schema := Option Json → Except Paths Json

/-- The key that no record keeps. -/
def protoKey : Text := ascii "__proto__".toList

/-- What the schemas make of the members with their names, or all the faults of these. -/
def collect : List (String × Schema) → List (Text × Json) → Except Paths (List (Text × Json))
  | [], _ => .ok []
  | (name, s) :: shape, ms =>
    match s (member? ms name), collect shape ms with
    | .ok v, .ok vs => .ok ((ascii name.toList, v) :: vs)
    | .ok _, .error qs => .error qs
    | .error ps, .ok _ => .error (ps.map (name :: ·))
    | .error ps, .error qs => .error (ps.map (name :: ·) ++ qs)

end Zod

/-- The combinators. -/
structure Zod where
  /-- `z.enum(names)`. -/
  enum (names : List String) : Zod.Schema
  /-- `z.record(z.string(), z.unknown())`. -/
  record : Zod.Schema
  /-- `z.number().int().min(lo).max(hi)`. -/
  int (lo hi : ℕ) : Zod.Schema
  /-- `s.refine(ok)`. -/
  refine (s : Zod.Schema) (ok : Json → Bool) : Zod.Schema
  /-- `s.optional().default(d)`. -/
  default (s : Zod.Schema) (d : Json) : Zod.Schema
  /-- `z.object(shape)`. -/
  object (shape : List (String × Zod.Schema)) : Zod.Schema
  enum_ok {names x v} : enum names x = .ok v ↔
    ∃ name ∈ names, x = some (.str (ascii name.toList)) ∧ v = .str (ascii name.toList)
  enum_error {names x ps} : enum names x = .error ps → ps = [[]]
  /-- A record leaves the key out that would set the prototype. -/
  record_ok {x v} : record x = .ok v ↔
    ∃ ms, x = some (.obj ms) ∧ v = .obj (ms.filter (·.1 ≠ Zod.protoKey))
  record_error {x ps} : record x = .error ps → ps = [[]]
  int_ok {lo hi x v} : int lo hi x = .ok v ↔
    ∃ n, lo ≤ n ∧ n ≤ hi ∧ x = some (jsonNat n) ∧ v = jsonNat n
  int_error {lo hi x ps} : int lo hi x = .error ps → ps = [[]]
  refine_ok {s ok x v} : refine s ok x = .ok v ↔ s x = .ok v ∧ ok v = true
  /-- A value that is not accepted itself is not looked at further. -/
  refine_error {s ok x ps} : s x = .error ps → refine s ok x = .error ps
  refine_not_ok {s ok x v} : s x = .ok v → ok v = false → refine s ok x = .error [[]]
  default_none {s d} : default s d none = .ok d
  default_some {s d v} : default s d (some v) = s (some v)
  /-- An object reads its own members, and drops the others. -/
  object_obj {shape ms} : object shape (some (.obj ms)) = (Zod.collect shape ms).map .obj
  object_not_obj {shape x} : (∀ ms, x ≠ some (.obj ms)) → object shape x = .error [[]]

namespace Zod

/-! ## Regular schemas -/

/-- Values that are the same up to the order of members, or the same faults. -/
def Alike : Except Paths Json → Except Paths Json → Prop
  | .ok v, .ok w => v.Same w
  | .error ps, .error qs => ps = qs
  | _, _ => False

/-- The order of members does not matter, and neither does a second time. -/
structure Schema.Regular (s : Schema) : Prop where
  /-- The same is made of values that are the same. -/
  blind {x y} : (∀ v ∈ x, v.Distinct) → (∀ w ∈ y, w.Distinct) → Option.Rel Json.Same x y →
    Alike (s x) (s y)
  /-- What was made is accepted, as it is. -/
  stable {x v} : s x = .ok v → s (some v) = .ok v
  /-- Keys stay distinct. -/
  tidy {x v} : (∀ w ∈ x, w.Distinct) → s x = .ok v → v.Distinct

/-- A schema that fails in one way only, and accepts what is the same as what it accepts. -/
theorem Schema.Regular.of_ok {s : Schema}
    (hblind : ∀ {x y v}, (∀ v ∈ x, v.Distinct) → (∀ w ∈ y, w.Distinct) →
      Option.Rel Json.Same x y → s x = .ok v → ∃ w, s y = .ok w ∧ v.Same w)
    (herror : ∀ {x ps}, s x = .error ps → ps = [[]])
    (hstable : ∀ {x v}, s x = .ok v → s (some v) = .ok v)
    (htidy : ∀ {x v}, (∀ w ∈ x, w.Distinct) → s x = .ok v → v.Distinct) : s.Regular where
  blind {x y} hx hy hxy := by
    cases hs : s x with
    | ok v =>
      obtain ⟨w, hw, hsame⟩ := hblind hx hy hxy hs
      rw [hw]
      exact hsame
    | error ps =>
      cases ht : s y with
      | ok w =>
        have hyx : Option.Rel Json.Same y x := by
          cases hxy with
          | none => exact .none
          | some h => exact .some (h.symm (hx _ rfl) (hy _ rfl))
        obtain ⟨v, hv, -⟩ := hblind hy hx hyx ht
        cases hs.symm.trans hv
      | error qs => exact (herror hs).trans (herror ht).symm
  stable := hstable
  tidy := htidy

variable (z : Zod)

theorem enum_regular (names : List String) : (z.enum names).Regular := by
  refine .of_ok (fun {x y v} _ _ hxy hx => ?_) z.enum_error (fun {x v} hx => ?_)
    fun {x v} _ hx => ?_
  · obtain ⟨name, hname, rfl, rfl⟩ := z.enum_ok.1 hx
    cases hxy with
    | some h =>
      obtain rfl := Json.str_same h
      exact ⟨_, hx, rfl⟩
  · obtain ⟨name, hname, rfl, rfl⟩ := z.enum_ok.1 hx
    exact hx
  · obtain ⟨name, hname, rfl, rfl⟩ := z.enum_ok.1 hx
    trivial

theorem int_regular (lo hi : ℕ) : (z.int lo hi).Regular := by
  refine .of_ok (fun {x y v} _ _ hxy hx => ?_) z.int_error (fun {x v} hx => ?_) fun {x v} _ hx => ?_
  · obtain ⟨n, hlo, hhi, rfl, rfl⟩ := z.int_ok.1 hx
    cases hxy with
    | some h =>
      obtain rfl := Json.num_same h
      exact ⟨_, hx, rfl⟩
  · obtain ⟨n, hlo, hhi, rfl, rfl⟩ := z.int_ok.1 hx
    exact hx
  · obtain ⟨n, hlo, hhi, rfl, rfl⟩ := z.int_ok.1 hx
    trivial

/-- What is left of objects that are the same, without a key, is the same. -/
theorem same_without {ms ns : List (Text × Json)} (h : (Json.obj ms).Same (.obj ns))
    (hm : (ms.map Prod.fst).Nodup) (key : Text) :
    (Json.obj (ms.filter (·.1 ≠ key))).Same (.obj (ns.filter (·.1 ≠ key))) := by
  have hlength (us : List (Text × Json)) :
      (us.filter (·.1 ≠ key)).length = ((us.map Prod.fst).filter (· ≠ key)).length := by
    rw [List.filter_map, List.length_map]
    rfl
  refine ⟨?_, Json.sameMembers_iff.2 fun m hmem => ?_⟩
  · rw [hlength, hlength]
    exact ((h.keys_perm hm).filter _).length_eq
  · obtain ⟨hmem, hne⟩ := List.mem_filter.1 hmem
    obtain ⟨w, hw, hsame⟩ := Json.sameMembers_iff.1 h.2 m hmem
    exact ⟨w, List.mem_filter.2 ⟨hw, hne⟩, hsame⟩

theorem record_regular : z.record.Regular := by
  refine .of_ok (fun {x y v} hx hy hxy hok => ?_) z.record_error (fun {x v} hok => ?_)
    fun {x v} hx hok => ?_
  · obtain ⟨ms, rfl, rfl⟩ := z.record_ok.1 hok
    cases hxy with
    | @some _ y h =>
      cases y with
      | obj ns => exact ⟨_, z.record_ok.2 ⟨ns, rfl, rfl⟩, same_without h (hx _ rfl).1 _⟩
      | _ => exact absurd h id
  · obtain ⟨ms, rfl, rfl⟩ := z.record_ok.1 hok
    refine z.record_ok.2 ⟨_, rfl, ?_⟩
    rw [List.filter_filter]
    simp only [Bool.and_self]
  · obtain ⟨ms, rfl, rfl⟩ := z.record_ok.1 hok
    obtain ⟨hkeys, hvals⟩ := hx _ rfl
    refine ⟨hkeys.sublist (List.filter_sublist.map _), Json.distinctMembers_iff.2 fun m hm => ?_⟩
    exact Json.distinctMembers_iff.1 hvals m (List.mem_of_mem_filter hm)

variable {z} {s : Schema}

/-- A refinement that does not see the order of members either. -/
theorem Schema.Regular.refine (h : s.Regular) {ok : Json → Bool}
    (hok : ∀ v w : Json, v.Distinct → v.Same w → ok v = ok w) : (z.refine s ok).Regular where
  blind {x y} hx hy hxy := by
    have halike := h.blind hx hy hxy
    cases hs : s x with
    | error ps =>
      rw [hs] at halike
      cases ht : s y with
      | error qs =>
        rw [ht] at halike
        rw [z.refine_error hs, z.refine_error ht]
        exact halike
      | ok w => exact absurd halike (by rw [ht]; exact id)
    | ok v =>
      rw [hs] at halike
      cases ht : s y with
      | error qs => exact absurd halike (by rw [ht]; exact id)
      | ok w =>
        rw [ht] at halike
        have hsame : ok v = ok w := hok v w (h.tidy hx hs) halike
        cases hv : ok v with
        | true =>
          rw [z.refine_ok.2 ⟨hs, hv⟩, z.refine_ok.2 ⟨ht, hsame ▸ hv⟩]
          exact halike
        | false =>
          rw [z.refine_not_ok hs hv, z.refine_not_ok ht (hsame ▸ hv)]
          exact rfl
  stable hx := by
    obtain ⟨hs, hv⟩ := z.refine_ok.1 hx
    exact z.refine_ok.2 ⟨h.stable hs, hv⟩
  tidy hx hs := h.tidy hx (z.refine_ok.1 hs).1

/-- A default that is accepted itself. -/
theorem Schema.Regular.default (h : s.Regular) {d : Json} (hd : s (some d) = .ok d)
    (hdistinct : d.Distinct) : (z.default s d).Regular where
  blind hx hy hxy := by
    cases hxy with
    | none =>
      rw [z.default_none]
      exact Json.same_refl d
    | some hsame =>
      rw [z.default_some, z.default_some]
      exact h.blind hx hy (.some hsame)
  stable {x v} hx := by
    rw [z.default_some]
    cases x with
    | none =>
      obtain rfl := Except.ok.inj (z.default_none.symm.trans hx)
      exact hd
    | some w => exact h.stable (z.default_some.symm.trans hx)
  tidy {x v} hx hs := by
    cases x with
    | none =>
      obtain rfl := Except.ok.inj (z.default_none.symm.trans hs)
      exact hdistinct
    | some w => exact h.tidy hx (z.default_some.symm.trans hs)

/-! ### Objects -/

section Collect

variable {shape : List (String × Schema)} {name : String} {ms ns us vs : List (Text × Json)}

/-- Every member is accepted, and comes out in the order of the shape. -/
theorem collect_cons_ok : collect ((name, s) :: shape) ms = .ok vs ↔
    ∃ v ws, s (member? ms name) = .ok v ∧ collect shape ms = .ok ws ∧
      vs = (ascii name.toList, v) :: ws := by
  rw [collect]
  split
  · rename_i v ws hs hrest
    rw [hs, hrest]
    constructor
    · intro h
      exact ⟨v, ws, rfl, rfl, (Except.ok.inj h).symm⟩
    · rintro ⟨v', ws', hv, hws, rfl⟩
      rw [Except.ok.inj hv, Except.ok.inj hws]
  · rename_i hrest
    simp [hrest]
  · rename_i hs _
    simp [hs]
  · rename_i hs _
    simp [hs]

theorem collect_keys (h : collect shape ms = .ok vs) :
    vs.map Prod.fst = shape.map fun p => ascii p.1.toList := by
  induction shape generalizing vs with
  | nil =>
    obtain rfl := Except.ok.inj h
    rfl
  | cons p shape ih =>
    obtain ⟨v, ws, -, hrest, rfl⟩ := collect_cons_ok.1 h
    rw [List.map_cons, List.map_cons, ih hrest]

/-- Objects that are the same give members that are the same, or the same faults. -/
theorem collect_alike (hreg : ∀ p ∈ shape, p.2.Regular) (hm : (Json.obj ms).Distinct)
    (hn : (Json.obj ns).Distinct) (h : (Json.obj ms).Same (.obj ns)) :
    (∃ ps, collect shape ms = .error ps ∧ collect shape ns = .error ps) ∨
      ∃ vs ws, collect shape ms = .ok vs ∧ collect shape ns = .ok ws ∧
        List.Forall₂ (fun v w => v.1 = w.1 ∧ v.2.Same w.2) vs ws := by
  induction shape with
  | nil => exact .inr ⟨[], [], rfl, rfl, .nil⟩
  | cons p shape ih =>
    obtain ⟨name, s⟩ := p
    have hrest := ih fun q hq => hreg q (.tail _ hq)
    have hone : Alike (s (member? ms name)) (s (member? ns name)) :=
      (hreg _ (.head _)).blind (fun _ hv => member?_distinct hm hv)
        (fun _ hw => member?_distinct hn hw) (member?_same h hm.1 hn.1)
    rw [collect, collect]
    cases hs : s (member? ms name) with
    | error ps =>
      cases ht : s (member? ns name) with
      | error qs =>
        rw [hs, ht] at hone
        obtain rfl : ps = qs := hone
        obtain ⟨qs, h₁, h₂⟩ | ⟨vs, ws, h₁, h₂, -⟩ := hrest
        · exact .inl ⟨_, by rw [h₁], by rw [h₂]⟩
        · exact .inl ⟨_, by rw [h₁], by rw [h₂]⟩
      | ok w =>
        rw [hs, ht] at hone
        exact absurd hone id
    | ok v =>
      cases ht : s (member? ns name) with
      | error qs =>
        rw [hs, ht] at hone
        exact absurd hone id
      | ok w =>
        rw [hs, ht] at hone
        obtain ⟨qs, h₁, h₂⟩ | ⟨vs, ws, h₁, h₂, hall⟩ := hrest
        · exact .inl ⟨qs, by rw [h₁], by rw [h₂]⟩
        · refine .inr ⟨(ascii name.toList, v) :: vs, (ascii name.toList, w) :: ws, ?_, ?_, ?_⟩
          · rw [h₁]
          · rw [h₂]
          · exact .cons ⟨rfl, hone⟩ hall

/-- The members that came out are accepted as they are, among others. -/
theorem collect_stable (hreg : ∀ p ∈ shape, p.2.Regular) (h : collect shape ms = .ok vs)
    (hsub : ∀ m ∈ vs, m ∈ us) (hus : (us.map Prod.fst).Nodup) : collect shape us = .ok vs := by
  induction shape generalizing vs with
  | nil => exact h
  | cons p shape ih =>
    obtain ⟨v, ws, hs, hrest, rfl⟩ := collect_cons_ok.1 h
    refine collect_cons_ok.2 ⟨v, ws, ?_, ?_, rfl⟩
    · rw [(member?_eq_some hus).2 (hsub _ (.head _))]
      exact (hreg _ (.head _)).stable hs
    · exact ih (fun q hq => hreg q (.tail _ hq)) hrest fun m hm => hsub m (.tail _ hm)

theorem collect_tidy (hreg : ∀ p ∈ shape, p.2.Regular) (hm : (Json.obj ms).Distinct)
    (h : collect shape ms = .ok vs) : ∀ m ∈ vs, m.2.Distinct := by
  induction shape generalizing vs with
  | nil =>
    obtain rfl := Except.ok.inj h
    exact fun m hm => absurd hm List.not_mem_nil
  | cons p shape ih =>
    obtain ⟨v, ws, hs, hrest, rfl⟩ := collect_cons_ok.1 h
    rintro m (_ | ⟨_, hmem⟩)
    · exact (hreg _ (.head _)).tidy (fun _ hw => member?_distinct hm hw) hs
    · exact ih (fun q hq => hreg q (.tail _ hq)) hrest m hmem

end Collect

variable {shape : List (String × Schema)} {x : Option Json} {v : Json}

theorem object_ok : z.object shape x = .ok v ↔
    ∃ ms vs, x = some (.obj ms) ∧ collect shape ms = .ok vs ∧ v = .obj vs := by
  constructor
  · intro h
    by_cases hobj : ∃ ms, x = some (.obj ms)
    · obtain ⟨ms, rfl⟩ := hobj
      rw [z.object_obj] at h
      cases hc : collect shape ms with
      | ok vs =>
        rw [hc] at h
        exact ⟨ms, vs, rfl, hc, (Except.ok.inj h).symm⟩
      | error ps =>
        rw [hc] at h
        cases h
    · rw [z.object_not_obj fun ms hms => hobj ⟨ms, hms⟩] at h
      cases h
  · rintro ⟨ms, vs, rfl, hc, rfl⟩
    rw [z.object_obj, hc]
    rfl

theorem object_regular (z : Zod) (hreg : ∀ p ∈ shape, p.2.Regular)
    (hnames : (shape.map fun p => ascii p.1.toList).Nodup) : (z.object shape).Regular where
  blind {x y} hx hy hxy := by
    have neither {x y : Option Json} (hx : ∀ ms, x ≠ some (.obj ms))
        (hy : ∀ ms, y ≠ some (.obj ms)) : Alike (z.object shape x) (z.object shape y) := by
      rw [z.object_not_obj hx, z.object_not_obj hy]
      exact rfl
    cases hxy with
    | none => exact neither (by simp) (by simp)
    | @some v w h =>
      cases v with
      | obj ms =>
        cases w with
        | obj ns =>
          rw [z.object_obj, z.object_obj]
          obtain ⟨ps, h₁, h₂⟩ | ⟨vs, ws, h₁, h₂, hall⟩ := collect_alike hreg (hx _ rfl) (hy _ rfl) h
          · rw [h₁, h₂]
            exact rfl
          · rw [h₁, h₂]
            refine ⟨hall.length_eq, Json.sameMembers_iff.2 fun m hm => ?_⟩
            obtain ⟨w, hw, hkey, hsame⟩ := forall₂_exists hall hm
            exact ⟨w.2, hkey ▸ hw, hsame⟩
        | _ => exact absurd h id
      | _ =>
        cases w with
        | obj ns => exact absurd h id
        | _ => exact neither (by simp) (by simp)
  stable {x v} h := by
    obtain ⟨ms, vs, rfl, hc, rfl⟩ := object_ok.1 h
    have hkeys : (vs.map Prod.fst).Nodup := (collect_keys hc).symm ▸ hnames
    exact object_ok.2 ⟨vs, vs, rfl, collect_stable hreg hc (fun _ h => h) hkeys, rfl⟩
  tidy {x v} hx h := by
    obtain ⟨ms, vs, rfl, hc, rfl⟩ := object_ok.1 h
    exact ⟨(collect_keys hc).symm ▸ hnames,
      Json.distinctMembers_iff.2 (collect_tidy hreg (hx _ rfl) hc)⟩

/-! ## Combinators that are as described -/

/-- The combinators, written out. -/
def plain : Zod where
  enum names
    | some (.str t) =>
      if names.any fun name => ascii name.toList = t then .ok (.str t) else .error [[]]
    | _ => .error [[]]
  record
    | some (.obj ms) => .ok (.obj (ms.filter (·.1 ≠ protoKey)))
    | _ => .error [[]]
  int lo hi
    | some (.num n) =>
      if (List.range (hi + 1)).any fun k => lo ≤ k && natText k = n.text then .ok (.num n)
      else .error [[]]
    | _ => .error [[]]
  refine s ok x :=
    match s x with
    | .ok v => if ok v then .ok v else .error [[]]
    | .error ps => .error ps
  default s d
    | none => .ok d
    | some v => s (some v)
  object shape
    | some (.obj ms) => (collect shape ms).map .obj
    | _ => .error [[]]
  enum_ok {names x v} := by
    constructor
    · intro h
      split at h
      · split at h
        · rename_i t hany
          obtain ⟨name, hname, ht⟩ := List.any_eq_true.1 hany
          obtain rfl : ascii name.toList = t := by simpa using ht
          exact ⟨name, hname, rfl, (Except.ok.inj h).symm⟩
        · cases h
      · cases h
    · rintro ⟨name, hname, rfl, rfl⟩
      exact if_pos (List.any_eq_true.2 ⟨name, hname, by simp⟩)
  enum_error {names x ps} h := by
    split at h
    · split at h <;> cases h
      rfl
    · cases h
      rfl
  record_ok {x v} := by
    constructor
    · intro h
      split at h
      · exact ⟨_, rfl, (Except.ok.inj h).symm⟩
      · cases h
    · rintro ⟨ms, rfl, rfl⟩
      rfl
  record_error {x ps} h := by
    split at h <;> cases h
    rfl
  int_ok {lo hi x v} := by
    constructor
    · intro h
      split at h
      · split at h
        · rename_i n hany
          obtain ⟨k, hk, hn⟩ := List.any_eq_true.1 hany
          obtain ⟨hlo, htext⟩ : lo ≤ k ∧ natText k = n.text := by simpa using hn
          have hnum : Json.num n = jsonNat k := by
            obtain ⟨text, _, _⟩ := n
            obtain rfl : natText k = text := htext
            rfl
          refine ⟨k, hlo, Nat.lt_succ_iff.1 (List.mem_range.1 hk), hnum ▸ rfl, ?_⟩
          exact (Except.ok.inj h).symm.trans hnum
        · cases h
      · cases h
    · rintro ⟨k, hlo, hhi, rfl, rfl⟩
      refine if_pos (List.any_eq_true.2 ⟨k, List.mem_range.2 (Nat.lt_succ_iff.2 hhi), ?_⟩)
      simp [hlo]
  int_error {lo hi x ps} h := by
    split at h
    · split at h <;> cases h
      rfl
    · cases h
      rfl
  refine_ok {s ok x v} := by
    cases hs : s x with
    | error ps => simp
    | ok w =>
      by_cases hw : ok w = true
      · simp only [hw, if_true, Except.ok.injEq]
        constructor
        · rintro rfl
          exact ⟨rfl, hw⟩
        · exact And.left
      · simp only [hw, Except.ok.injEq]
        constructor
        · intro h
          cases h
        · rintro ⟨rfl, hok⟩
          exact absurd hok hw
  refine_error h := by rw [h]
  refine_not_ok h hok := by
    rw [h]
    exact if_neg (by simp [hok])
  default_none := rfl
  default_some := rfl
  object_obj := rfl
  object_not_obj {shape x} h := by
    split
    · exact absurd rfl (h _)
    · rfl

end Zod
