import Mathlib.Data.List.Perm.Basic
import ScaleQueue.Worker

/-!
# The handlers

What the registered handlers make of a job: `json.Unmarshal` of its payload into a struct
of strings (`unmarshal`), the check of the field that must not be missing (`checks`), and
how a call of a handler ends (`Ends`), whose `wait` is cut short when its context is
cancelled.

The members of a payload come in the order that the database keeps them in, which is its
own. Keys that are the same but for case are for one field, and the last of them wins, so
that there are payloads of which the order decides what becomes of the job
(`accepts_any_order`).
-/

namespace ScaleQueue

/-! ## Payloads -/

/-- What `encoding/json` calls a value. -/
def jsonKind : Json → String
  | .null => "null"
  | .bool _ => "bool"
  | .num _ => "number"
  | .str _ => "string"
  | .arr _ => "array"
  | .obj _ => "object"

/-- A code unit up to case, as far as it is that of an ASCII letter. Two others are: the
    long s, and the Kelvin sign. -/
def foldUnit (c : CodeUnit) : CodeUnit :=
  if unit 'A' ≤ c ∧ c ≤ unit 'Z' then c + (unit 'a' - unit 'A')
  else if c = unit (Char.ofNat 0x17F) then unit 's'
  else if c = unit (Char.ofNat 0x212A) then unit 'k'
  else c

/-- A struct whose fields are strings, by their names in JSON. -/
structure StringStruct where
  name : String
  fields : List String

/-- `EmailPayload`. -/
def emailPayload : StringStruct := ⟨"EmailPayload", ["to", "subject", "body"]⟩

/-- `NotificationPayload`. -/
def notificationPayload : StringStruct := ⟨"NotificationPayload", ["user_id", "message", "channel"]⟩

/-- The field that a key is for: that of its name, or else of its name up to case. -/
def StringStruct.field? (t : StringStruct) (key : Text) : Option String :=
  match t.fields.find? fun f => key = ascii f.toList with
  | some f => some f
  | none => t.fields.find? fun f => key.map foldUnit = ascii f.toList

/-- A struct of strings, as far as it has been read, with the first error. -/
structure Decoded where
  value : String → Text
  error : Option String

/-- Nothing is decoded yet. -/
def Decoded.zero : Decoded := ⟨fun _ => [], none⟩

/-- The next member is stored. `null` changes nothing. -/
def Decoded.store (t : StringStruct) (d : Decoded) (m : Text × Json) : Decoded :=
  match t.field? m.1 with
  | none => d
  | some f =>
    match m.2 with
    | .null => d
    | .str s => { d with value := Function.update d.value f s }
    | x => { d with error := d.error.or (some ("json: cannot unmarshal " ++ jsonKind x ++
        " into Go struct field " ++ t.name ++ "." ++ f ++ " of type string")) }

/-- `json.Unmarshal`. -/
def unmarshal (t : StringStruct) : Json → Decoded
  | .null => .zero
  | .obj ms => ms.foldl (Decoded.store t) .zero
  | x => { Decoded.zero with error := some ("json: cannot unmarshal " ++ jsonKind x ++
      " into Go value of type handlers." ++ t.name) }

/-! ## Handlers -/

/-- What a handler does before it waits: it reads its payload, of which a field must not be
    missing. -/
def checks (t : StringStruct) (required message : String) (payload : Json) : Result :=
  let p := unmarshal t payload
  match p.error with
  | some e => .failed e true
  | none => if p.value required = [] then .failed message true else .ok

/-- `EmailHandler.Handle`, up to its `wait`. -/
def emailHandler : Json → Result := checks emailPayload "to" "email payload missing to"

/-- `NotificationHandler.Handle`, up to its `wait`. -/
def notificationHandler : Json → Result :=
  checks notificationPayload "user_id" "notification payload missing user_id"

/-- `FailingHandler.Handle`. -/
def failingHandler (_ : Json) : Result := .failed "simulated transient failure" false

/-- `Registry.Get`, with what `NewRegistry` registers. -/
def handler? (type : String) : Option (Json → Result) :=
  [("send_email", emailHandler), ("send_notification", notificationHandler),
    ("fail_job", failingHandler)].lookup type

/-- What `ctx.Err` says. -/
def contextErrors : List String := ["context canceled", "context deadline exceeded"]

/-- How a call of a handler ends whose check said `r`: a job that passed waits, unless the
    context is `cancelled`. -/
inductive Ends (cancelled : Bool) (r : Result) : Result → Prop
  | checked : Ends cancelled r r
  | interrupted {e : String} : r = .ok → cancelled = true → e ∈ contextErrors →
      Ends cancelled r (.failed e false)

/-- What becomes of the attempts at a job of this type whose payload is read like this, if
    they are not interrupted. -/
def verdict (type : String) (payload : Json) : Result :=
  match handler? type with
  | some handler => handler payload
  | none => unregistered type

/-! ## Types -/

theorem handler?_isSome {type : String} : (handler? type).isSome ↔ type ∈ registry := by
  unfold handler? registry
  by_cases h₁ : type = "send_email"
  · subst h₁
    decide
  by_cases h₂ : type = "send_notification"
  · subst h₂
    decide
  by_cases h₃ : type = "fail_job"
  · subst h₃
    decide
  · simp [List.lookup_cons, beq_eq_false_iff_ne.2 h₁, beq_eq_false_iff_ne.2 h₂,
      beq_eq_false_iff_ne.2 h₃, h₁, h₂, h₃]

theorem verdict_of_unregistered {type : String} (h : type ∉ registry) (payload : Json) :
    verdict type payload = unregistered type := by
  have : handler? type = none := by
    rwa [← handler?_isSome, Option.not_isSome_iff_eq_none] at h
  rw [verdict, this]

/-! ## The order of members -/

section Order

variable {t : StringStruct} {required message : String} {ms ms' : List (Text × Json)} {f : String}

/-- All of a member that a handler looks at. -/
def brief (m : Text × Json) : Text × String × Option Text :=
  (m.1, jsonKind m.2, match m.2 with | .str s => some s | _ => none)

/-- The members `ms` may be read as `ms'`: their order is the database's own, and so are the
    texts of numbers. -/
def ReadAs (ms ms' : List (Text × Json)) : Prop := (ms'.map brief).Perm (ms.map brief)

/-- The member is for no field, or can be stored in it. -/
def StringStruct.Fits (t : StringStruct) (b : Text × String × Option Text) : Prop :=
  (t.field? b.1).isSome → b.2.1 = "null" ∨ b.2.1 = "string"

/-- The strings for a field, in the order of the members. -/
def stringsFor (t : StringStruct) (f : String) (bs : List (Text × String × Option Text)) :
    List Text :=
  bs.filterMap fun b => if t.field? b.1 = some f then b.2.2 else none

theorem Decoded.store_error (d : Decoded) (m : Text × Json) :
    (d.store t m).error = none ↔ d.error = none ∧ t.Fits (brief m) := by
  obtain ⟨key, x⟩ := m
  unfold Decoded.store StringStruct.Fits brief
  cases t.field? key with
  | none => simp
  | some f => cases x <;> simp [jsonKind]

theorem Decoded.store_value (d : Decoded) (m : Text × Json) :
    (d.store t m).value f = (stringsFor t f [brief m]).getLast?.getD (d.value f) := by
  obtain ⟨key, x⟩ := m
  unfold Decoded.store stringsFor brief
  cases hkey : t.field? key with
  | none => simp [hkey]
  | some f' =>
    by_cases hf : f' = f
    · subst hf
      cases x <;> simp [hkey]
    · cases x <;> simp [hkey, hf, Function.update_of_ne (Ne.symm hf)]

theorem stringsFor_append (bs bs' : List (Text × String × Option Text)) :
    stringsFor t f (bs ++ bs') = stringsFor t f bs ++ stringsFor t f bs' := List.filterMap_append

/-- What is in a struct after the members: there was no error if all of them fit, and the
    last string for a field is its value. -/
theorem foldl_store (ms : List (Text × Json)) (d : Decoded) :
    ((ms.foldl (Decoded.store t) d).error = none ↔
      d.error = none ∧ ∀ b ∈ ms.map brief, t.Fits b) ∧
    (ms.foldl (Decoded.store t) d).value f =
      (stringsFor t f (ms.map brief)).getLast?.getD (d.value f) := by
  induction ms generalizing d with
  | nil => simp [stringsFor]
  | cons m ms ih =>
    obtain ⟨herror, hvalue⟩ := ih (d.store t m)
    refine ⟨?_, ?_⟩
    · rw [List.foldl_cons, herror, Decoded.store_error, List.map_cons, List.forall_mem_cons,
        and_assoc]
    · rw [List.foldl_cons, hvalue, Decoded.store_value]
      show _ = (stringsFor t f ([brief m] ++ ms.map brief)).getLast?.getD (d.value f)
      rw [stringsFor_append, List.getLast?_append]
      cases (stringsFor t f (ms.map brief)).getLast? <;> rfl

/-- A payload passes if all its members fit, and the last string for the field that must
    not be missing is not empty. -/
theorem checks_eq_ok : checks t required message (.obj ms) = .ok ↔
    (∀ b ∈ ms.map brief, t.Fits b) ∧
      (stringsFor t required (ms.map brief)).getLast?.getD [] ≠ [] := by
  obtain ⟨herror, hvalue⟩ := foldl_store (t := t) (f := required) ms .zero
  have hvalue : (unmarshal t (.obj ms)).value required =
      (stringsFor t required (ms.map brief)).getLast?.getD [] := hvalue
  have herror : (unmarshal t (.obj ms)).error = none ↔ ∀ b ∈ ms.map brief, t.Fits b :=
    herror.trans (and_iff_right rfl)
  unfold checks
  dsimp only
  rw [← herror, ← hvalue]
  split <;> simp_all

theorem last_of_forall {P : Text → Prop} {ss : List Text} (hnil : P []) (h : ∀ s ∈ ss, P s) :
    P (ss.getLast?.getD []) := by
  cases hl : ss.getLast? with
  | none => exact hnil
  | some s => exact h s (List.mem_of_getLast? hl)

theorem last_ne_nil {ss : List Text} (h : ∀ s ∈ ss, s ≠ []) :
    ss.getLast?.getD [] ≠ [] ↔ ∃ s, s ∈ ss := by
  cases hl : ss.getLast? with
  | none => simp [List.getLast?_eq_none_iff.1 hl]
  | some s =>
    have hs := List.mem_of_getLast? hl
    exact iff_of_true (h s hs) ⟨s, hs⟩

/-- Whether a payload passes is the same in every order of its members, just if some member
    does not fit, or the strings for the field that must not be missing are all empty, or
    none of them is. -/
theorem accepts_any_order (t : StringStruct) (required message : String)
    (ms : List (Text × Json)) :
    (∀ ms', ReadAs ms ms' → (checks t required message (.obj ms') = .ok ↔
      checks t required message (.obj ms) = .ok)) ↔
    (∃ b ∈ ms.map brief, ¬ t.Fits b) ∨ (∀ s ∈ stringsFor t required (ms.map brief), s = []) ∨
      ∀ s ∈ stringsFor t required (ms.map brief), s ≠ [] := by
  constructor
  · intro h
    by_contra! hno
    obtain ⟨hfit, ⟨s, hs, hne⟩, s', hs', hempty⟩ := hno
    -- Each of the strings can be the last one.
    have last {s : Text} (hs : s ∈ stringsFor t required (ms.map brief)) :
        checks t required message (.obj ms) = .ok ↔ s ≠ [] := by
      obtain ⟨b, hb, hbs⟩ := List.mem_filterMap.1 hs
      obtain ⟨m, hm, rfl⟩ := List.mem_map.1 hb
      obtain ⟨ms₁, ms₂, rfl⟩ := List.mem_iff_append.1 hm
      have hperm : (ms₁ ++ ms₂ ++ [m]).Perm (ms₁ ++ m :: ms₂) := by
        rw [List.append_assoc]
        exact (List.perm_append_singleton m ms₂).append_left ms₁
      rw [← h _ (hperm.map brief), checks_eq_ok, List.map_append, stringsFor_append]
      have hlast : stringsFor t required ([m].map brief) = [s] := by
        simp only [stringsFor, List.map_singleton, List.filterMap_cons, List.filterMap_nil, hbs]
      rw [hlast, List.getLast?_append_of_ne_nil _ (by simp)]
      refine and_iff_right fun b hb => hfit b ?_
      rw [← List.map_append] at hb
      exact (hperm.map brief).subset hb
    exact (last hs').1 ((last hs).2 hne) hempty
  · rintro h ms' hread
    have hfit : (∀ b ∈ ms'.map brief, t.Fits b) ↔ ∀ b ∈ ms.map brief, t.Fits b :=
      forall_congr' fun b => by rw [hread.mem_iff]
    have hstrings (s : Text) : s ∈ stringsFor t required (ms'.map brief) ↔
        s ∈ stringsFor t required (ms.map brief) := (hread.filterMap _).mem_iff
    rw [checks_eq_ok, checks_eq_ok, hfit]
    rcases h with ⟨b, hb, hno⟩ | hall | hnone
    · exact iff_of_false (fun h => hno (h.1 b hb)) fun h => hno (h.1 b hb)
    · refine iff_of_false (fun h => h.2 ?_) fun h => h.2 ?_
      · exact last_of_forall (P := (· = [])) rfl fun s hs => hall s ((hstrings s).1 hs)
      · exact last_of_forall (P := (· = [])) rfl hall
    · refine and_congr_right fun _ => ?_
      rw [last_ne_nil fun s hs => hnone s ((hstrings s).1 hs), last_ne_nil hnone]
      exact exists_congr hstrings

end Order

end ScaleQueue
