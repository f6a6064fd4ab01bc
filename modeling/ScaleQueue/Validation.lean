import ScaleQueue.JobService
import ScaleQueue.Zod

/-!
# What a body asks for

`createJobSchema` reads four members of a body, by name. What it accepts is a
`CreateJobInput` (`createJobSchema_infers`), whose payload is that of the body but for the
member that a record does not keep.

It means the same in whatever order the members of a body come, at every depth: the body is
accepted or not, with the same fields at fault, and what it is known by under a request key
stays the same. What was accepted is accepted again as it is, and two accepted bodies are
known by the same text exactly if they ask for the same job (`bodies_alike`).
-/

namespace ScaleQueue

/-! ## The schema -/

/-- `createJobSchema`. -/
def createJobSchema (z : Zod) : Zod.Schema :=
  z.object [
    ("type", z.enum ["send_email", "send_notification", "fail_job"]),
    ("payload", z.refine z.record fun val => 0 < val.keys.length),
    ("max_retries", z.default (z.int 0 10) (jsonNat 3)),
    ("priority", z.default (z.int 1 10) (jsonNat 5))]

/-- The field that an issue is about: `e.path.join('.')`. -/
def fieldOf (path : List String) : String := String.intercalate "." path

theorem createJobSchema_regular (z : Zod) : (createJobSchema z).Regular := by
  have hnames : [ascii "type".toList, ascii "payload".toList, ascii "max_retries".toList,
      ascii "priority".toList].Nodup := by decide
  refine z.object_regular (fun p hp => ?_) hnames
  simp only [List.mem_cons, List.not_mem_nil, or_false] at hp
  obtain rfl | rfl | rfl | rfl := hp
  · exact z.enum_regular _
  · refine z.record_regular.refine fun v w hv hsame => ?_
    cases v with
    | obj ms =>
      cases w with
      | obj ns => simp [Json.keys, hsame.1]
      | _ => exact absurd hsame id
    | _ => cases w <;> first | rfl | exact absurd hsame id
  · exact (z.int_regular 0 10).default (z.int_ok.2 ⟨3, by decide, by decide, rfl, rfl⟩) trivial
  · exact (z.int_regular 1 10).default (z.int_ok.2 ⟨5, by decide, by decide, rfl, rfl⟩) trivial

/-- A number that is read, or is its default. -/
theorem default_int_ok {z : Zod} {lo hi d : ℕ} {x : Option Json} {v : Json} (hlo : lo ≤ d)
    (hhi : d ≤ hi) (h : z.default (z.int lo hi) (jsonNat d) x = .ok v) :
    ∃ n, lo ≤ n ∧ n ≤ hi ∧ v = jsonNat n ∧ x.getD (jsonNat d) = jsonNat n := by
  cases x with
  | none =>
    obtain rfl := Except.ok.inj (z.default_none.symm.trans h)
    exact ⟨d, hlo, hhi, rfl, rfl⟩
  | some w =>
    obtain ⟨n, hn, hn', hw, rfl⟩ := z.int_ok.1 (z.default_some.symm.trans h)
    exact ⟨n, hn, hn', rfl, Option.some.inj hw⟩

theorem default_int_of_getD {z : Zod} {lo hi d n : ℕ} {x : Option Json}
    (h : x.getD (jsonNat d) = jsonNat n) (hlo : lo ≤ n) (hhi : n ≤ hi) :
    z.default (z.int lo hi) (jsonNat d) x = .ok (jsonNat n) := by
  cases x with
  | none =>
    rw [z.default_none]
    exact congrArg _ h
  | some w =>
    rw [z.default_some]
    exact z.int_ok.2 ⟨n, hlo, hhi, congrArg some h, rfl⟩

/-- The body asks for the input: this is what the schema reads. -/
structure AsksFor (ms : List (Text × Json)) (input : CreateJobInput) : Prop where
  type : member? ms "type" = some (.str (ascii input.type.name.toList))
  /-- A member that would set the prototype is not part of the payload. -/
  payload : ∃ ps, member? ms "payload" = some (.obj ps) ∧
    input.payload = ps.filter (·.1 ≠ Zod.protoKey)
  maxRetries : (member? ms "max_retries").getD (jsonNat 3) = jsonNat input.maxRetries
  priority : (member? ms "priority").getD (jsonNat 5) = jsonNat input.priority

/-- What is accepted is an input, just as the body asks for. -/
theorem createJobSchema_infers {z : Zod} {b v : Json} (hb : b.Distinct)
    (h : createJobSchema z (some b) = .ok v) :
    ∃ ms, ∃ input : CreateJobInput, b = .obj ms ∧ v = input.toJson ∧ AsksFor ms input := by
  obtain ⟨ms, vs, hms, hcollect, rfl⟩ := Zod.object_ok.1 h
  obtain rfl := Option.some.inj hms
  obtain ⟨v₁, vs₁, htype, hcollect₁, rfl⟩ := Zod.collect_cons_ok.1 hcollect
  obtain ⟨v₂, vs₂, hpayload, hcollect₂, rfl⟩ := Zod.collect_cons_ok.1 hcollect₁
  obtain ⟨v₃, vs₃, hmax, hcollect₃, rfl⟩ := Zod.collect_cons_ok.1 hcollect₂
  obtain ⟨v₄, vs₄, hpriority, hcollect₄, rfl⟩ := Zod.collect_cons_ok.1 hcollect₃
  obtain rfl := Except.ok.inj hcollect₄
  obtain ⟨type, hread, rfl⟩ : ∃ type : JobType,
      member? ms "type" = some (.str (ascii type.name.toList)) ∧
        v₁ = .str (ascii type.name.toList) := by
    obtain ⟨name, hname, hx, rfl⟩ := z.enum_ok.1 htype
    simp only [List.mem_cons, List.not_mem_nil, or_false] at hname
    obtain rfl | rfl | rfl := hname
    · exact ⟨.sendEmail, hx, rfl⟩
    · exact ⟨.sendNotification, hx, rfl⟩
    · exact ⟨.failJob, hx, rfl⟩
  obtain ⟨hrecord, hne⟩ := z.refine_ok.1 hpayload
  have hdistinct := z.record_regular.tidy (fun _ hw => member?_distinct hb hw) hrecord
  obtain ⟨ps, hps, rfl⟩ := z.record_ok.1 hrecord
  obtain ⟨maxRetries, -, hmax_le, rfl, hmax'⟩ := default_int_ok (by decide) (by decide) hmax
  obtain ⟨priority, hone_le, hpriority_le, rfl, hpriority'⟩ :=
    default_int_ok (by decide) (by decide) hpriority
  let input : CreateJobInput := {
    type := type
    payload := ps.filter (·.1 ≠ Zod.protoKey)
    maxRetries := maxRetries
    priority := priority
    payload_ne_nil := fun hnil => by
      rw [hnil] at hne
      cases hne
    maxRetries_le := hmax_le
    one_le_priority := hone_le
    priority_le := hpriority_le
    distinct := hdistinct }
  exact ⟨ms, input, rfl, rfl, hread, ⟨ps, hps, rfl⟩, hmax', hpriority'⟩

/-- A body that asks for an input is accepted as it. -/
theorem AsksFor.accepted {z : Zod} {ms : List (Text × Json)} {input : CreateJobInput}
    (h : AsksFor ms input) : createJobSchema z (some (.obj ms)) = .ok input.toJson := by
  obtain ⟨ps, hps, hpayload⟩ := h.payload
  have htype : z.enum ["send_email", "send_notification", "fail_job"] (member? ms "type") =
      .ok (.str (ascii input.type.name.toList)) := by
    refine z.enum_ok.2 ⟨input.type.name, ?_, h.type, rfl⟩
    cases input.type <;> simp [JobType.name]
  have hrecord : z.refine z.record (fun val => 0 < val.keys.length) (member? ms "payload") =
      .ok (.obj input.payload) := by
    refine z.refine_ok.2 ⟨z.record_ok.2 ⟨ps, hps, hpayload ▸ rfl⟩, ?_⟩
    simpa [Json.keys, List.length_pos_iff] using input.payload_ne_nil
  have hmax := default_int_of_getD (z := z) h.maxRetries (Nat.zero_le _) input.maxRetries_le
  have hpriority := default_int_of_getD (z := z) h.priority input.one_le_priority input.priority_le
  exact Zod.object_ok.2 ⟨ms, _, rfl, Zod.collect_cons_ok.2 ⟨_, _, htype,
    Zod.collect_cons_ok.2 ⟨_, _, hrecord, Zod.collect_cons_ok.2 ⟨_, _, hmax,
    Zod.collect_cons_ok.2 ⟨_, _, hpriority, rfl, rfl⟩, rfl⟩, rfl⟩, rfl⟩, rfl⟩

/-- Which bodies are accepted, and as what. -/
theorem createJobSchema_ok {z : Zod} {b v : Json} (hb : b.Distinct) :
    createJobSchema z (some b) = .ok v ↔
      ∃ ms, ∃ input : CreateJobInput, b = .obj ms ∧ v = input.toJson ∧ AsksFor ms input := by
  constructor
  · exact createJobSchema_infers hb
  · rintro ⟨ms, input, rfl, rfl, h⟩
    exact h.accepted

/-! ## The text of an input -/

/-- The two ask for the same job. -/
structure CreateJobInput.Alike (input input' : CreateJobInput) : Prop where
  type : input.type = input'.type
  payload : (Json.obj input.payload).Same (.obj input'.payload)
  maxRetries : input.maxRetries = input'.maxRetries
  priority : input.priority = input'.priority

/-- The members of a validated request. -/
def CreateJobInput.members (input : CreateJobInput) : List (Text × Json) :=
  [(ascii "type".toList, .str (ascii input.type.name.toList)),
    (ascii "payload".toList, .obj input.payload),
    (ascii "max_retries".toList, jsonNat input.maxRetries),
    (ascii "priority".toList, jsonNat input.priority)]

theorem CreateJobInput.keys_nodup (input : CreateJobInput) :
    (input.members.map Prod.fst).Nodup := by
  have hkeys : [ascii "type".toList, ascii "payload".toList, ascii "max_retries".toList,
      ascii "priority".toList].Nodup := by decide
  exact hkeys

theorem CreateJobInput.toJson_distinct (input : CreateJobInput) : input.toJson.Distinct :=
  ⟨input.keys_nodup, trivial, input.distinct, trivial, trivial, trivial⟩

theorem JobType.name_inj {type type' : JobType}
    (h : ascii type.name.toList = ascii type'.name.toList) : type = type' := by
  cases type <;> cases type' <;> first | rfl | exact absurd h (by decide)

theorem CreateJobInput.toJson_inj {input input' : CreateJobInput}
    (h : input.toJson = input'.toJson) : input = input' := by
  obtain ⟨type, payload, maxRetries, priority, _, _, _, _, _⟩ := input
  obtain ⟨type', payload', maxRetries', priority', _, _, _, _, _⟩ := input'
  simp only [toJson, Json.obj.injEq, List.cons.injEq, Prod.mk.injEq, true_and, and_true,
    Json.str.injEq] at h
  obtain ⟨htype, rfl, hmax, hpriority⟩ := h
  obtain rfl := JobType.name_inj htype
  obtain rfl := jsonNat_inj hmax
  obtain rfl := jsonNat_inj hpriority
  rfl

/-- Two inputs are known by the same text exactly if they ask for the same job. -/
theorem text_eq_iff {input input' : CreateJobInput} :
    canonical input.toJson = canonical input'.toJson ↔ input.Alike input' := by
  rw [canonical_exact input.toJson_distinct input'.toJson_distinct]
  constructor
  · intro h
    have hboth {name : String} {x y : Json} (hx : (ascii name.toList, x) ∈ input.members)
        (hy : (ascii name.toList, y) ∈ input'.members) : x.Same y := by
      have hrel : Option.Rel Json.Same (member? input.members name) (member? input'.members name) :=
        member?_same h input.keys_nodup input'.keys_nodup
      rw [(member?_eq_some input.keys_nodup).2 hx, (member?_eq_some input'.keys_nodup).2 hy] at hrel
      cases hrel with
      | some h => exact h
    have htype := hboth (.head _) (.head _)
    have hmax := hboth (.tail _ (.tail _ (.head _))) (.tail _ (.tail _ (.head _)))
    have hpriority := hboth (.tail _ (.tail _ (.tail _ (.head _))))
      (.tail _ (.tail _ (.tail _ (.head _))))
    exact ⟨JobType.name_inj htype, hboth (.tail _ (.head _)) (.tail _ (.head _)),
      natText_inj (JsonNumber.mk.inj hmax), natText_inj (JsonNumber.mk.inj hpriority)⟩
  · rintro ⟨htype, hpayload, hmax, hpriority⟩
    refine ⟨rfl, ?_⟩
    rw [htype, hmax, hpriority]
    exact ⟨⟨_, .head _, rfl⟩, ⟨_, .tail _ (.head _), hpayload⟩,
      ⟨_, .tail _ (.tail _ (.head _)), rfl⟩,
      ⟨_, .tail _ (.tail _ (.tail _ (.head _))), rfl⟩, trivial⟩

/-! ## Bodies that are the same -/

/-- The same fields are at fault in bodies that are the same, or they are accepted and known
    by the same text. -/
theorem createJobSchema_same {z : Zod} {b b' : Json} (h : b.Same b') (hb : b.Distinct)
    (hb' : b'.Distinct) : (createJobSchema z (some b)).map canonical =
      (createJobSchema z (some b')).map canonical := by
  have hreg := createJobSchema_regular z
  have hdistinct {b : Json} (hb : b.Distinct) : ∀ w ∈ some b, w.Distinct := fun w hw => by
    obtain rfl := Option.some.inj hw
    exact hb
  have halike := hreg.blind (hdistinct hb) (hdistinct hb') (.some h)
  cases hs : createJobSchema z (some b) with
  | error ps =>
    cases ht : createJobSchema z (some b') with
    | error qs =>
      rw [hs, ht] at halike
      exact congrArg Except.error halike
    | ok w =>
      rw [hs, ht] at halike
      exact absurd halike id
  | ok v =>
    cases ht : createJobSchema z (some b') with
    | error qs =>
      rw [hs, ht] at halike
      exact absurd halike id
    | ok w =>
      rw [hs, ht] at halike
      have hv := hreg.tidy (hdistinct hb) hs
      have hw := hreg.tidy (hdistinct hb') ht
      exact congrArg Except.ok (canonical_eq_of_same hv hw halike)

/-- A body is accepted as an input exactly if it asks for it, and it is then accepted again
    as it is. Whether it is, with which fields at fault, and by which text it is known, does
    not depend on the order of its members; and two inputs are known by the same text exactly
    if they ask for the same job. -/
theorem bodies_alike (z : Zod) :
    (∀ b v : Json, b.Distinct →
      (createJobSchema z (some b) = .ok v ↔
        ∃ ms, ∃ input : CreateJobInput, b = .obj ms ∧ v = input.toJson ∧ AsksFor ms input) ∧
      (createJobSchema z (some b) = .ok v → createJobSchema z (some v) = .ok v)) ∧
    (∀ b b' : Json, b.Distinct → b'.Distinct → b.Same b' →
      (createJobSchema z (some b)).map canonical = (createJobSchema z (some b')).map canonical) ∧
    ∀ input input' : CreateJobInput,
      canonical input.toJson = canonical input'.toJson ↔ input.Alike input' :=
  ⟨fun _ _ hb => ⟨createJobSchema_ok hb, (createJobSchema_regular z).stable⟩,
    fun _ _ hb hb' h => createJobSchema_same h hb hb', fun _ _ => text_eq_iff⟩

/-- A body whose members come in another order, and one of them would set the prototype. -/
theorem bodies_alike_swapped :
    let payload := Json.obj [(Zod.protoKey, .null), (ascii "to".toList, .null)]
    let type := Json.str (ascii "send_email".toList)
    (createJobSchema .plain (some (.obj [(ascii "payload".toList, payload),
        (ascii "type".toList, type)]))).map canonical =
      (createJobSchema .plain (some (.obj [(ascii "type".toList, type),
        (ascii "payload".toList, payload)]))).map canonical ∧
    createJobSchema .plain (some (.obj [(ascii "type".toList, type),
        (ascii "payload".toList, payload)])) =
      .ok (.obj [(ascii "type".toList, type),
        (ascii "payload".toList, .obj [(ascii "to".toList, .null)]),
        (ascii "max_retries".toList, jsonNat 3), (ascii "priority".toList, jsonNat 5)]) := by
  intro payload type
  have hpayload : payload.Distinct := ⟨by decide, trivial, trivial, trivial⟩
  refine ⟨(bodies_alike .plain).2.1 _ _ ⟨by decide, hpayload, trivial, trivial⟩
    ⟨by decide, trivial, hpayload, trivial⟩ ?_, rfl⟩
  exact ⟨rfl, ⟨_, .tail _ (.head _), Json.same_refl _⟩, ⟨_, .head _, rfl⟩, trivial⟩

end ScaleQueue
