import ControllerHooks.Controllers.Registry
import ControllerHooks.Proofs.Admission.Documents

/-!
# Mutation reaches a fixed point

`Controller.mutate_reaches_fixed_point`: the patch that a client is answered applies to the
document that the client sent. It fills in one place and leaves the rest of the document alone, and
the document that it makes is left alone by the same controller.
-/

namespace ControllerHooks

open FieldRule (Agree)
open Json (fillAt)

namespace Controller

/-- The answer to a client that wants to write this document. -/
def mutateDocument (c : Controller) (d : Json) : Except Fault AdmissionResponse := do
  let request ← (Payload.ofJson (.object [("object", d)])).mapError .decode
  c.answerMutate request

/-- What a controller fills in on admission, and where. -/
inductive FillsIn : Controller → List String → Json → Prop
  | replicas : FillsIn ContainerSet.controller ["spec", "replicas"] (.ofInt 1)
  | mark : FillsIn Noop.controller ["metadata", "annotations", "noop"] (.string "true")

/-! ## Answers of one rule -/

theorem request_ofJson (d : Json) :
    (Payload.ofJson (.object [("object", d)]) : Except DecodeError AdmissionRequest) =
      (Payload.ofJson d).map AdmissionRequest.mk := by
  have whole : (Payload.ofJson (.object [("object", d)]) : Except DecodeError AdmissionRequest) =
      Record.ofMembers [.required "object" Payload.read fun _ o => ⟨o⟩] Record.ignore ⟨.blank⟩
        [(.text "object", Doc.ofJson .memory d)] (.closed .memory) := rfl
  rw [whole]
  cases read : (Payload.ofJson d : Except DecodeError Object) with
  | error e =>
    have read : (Payload.read (Doc.ofJson .memory d) : Except DecodeError Object) = .error e := read
    simp [Record.ofMembers, Record.member, Record.field?, Field.required, Field.set,
      Reader.wellFormed, Key.read, read]
  | ok o =>
    have read : (Payload.read (Doc.ofJson .memory d) : Except DecodeError Object) = .ok o := read
    simp [Record.ofMembers, Record.member, Record.field?, Record.complete, Field.required,
      Field.set, Reader.wellFormed, Key.read, Doc.readFlaw, Close.objectFlaw, read]

theorem mutateDocument_eq_ok_iff {c : Controller} {d : Json} {response : AdmissionResponse} :
    c.mutateDocument d = .ok response ↔ ∃ o mutation, Object.ofValue d = .ok o ∧
      c.mutate o = .ok mutation ∧ response = .ofMutation mutation := by
  simp only [mutateDocument, request_ofJson, bind_eq_ok, mapError_eq_ok, map_eq_ok, answerMutate,
    Object.ofValue]
  constructor
  · rintro ⟨_, ⟨o, read, rfl⟩, mutation, decided, rfl⟩
    exact ⟨o, mutation, read, decided, rfl⟩
  · rintro ⟨o, mutation, read, decided, rfl⟩
    exact ⟨_, ⟨o, read, rfl⟩, mutation, decided, rfl⟩

theorem evaluate_eq_ok_iff {rule : FieldRule} {o : Object} {mutation : Mutation} :
    Defaults.evaluate [rule] o = .ok mutation ↔
      rule.step o.toValue = .ok none ∧ mutation = .unchanged ∨
      ∃ op w, rule.step o.toValue = .ok (some op) ∧ Patch.apply [op] o.toValue = .ok w ∧
        mutation = .patch [op] := by
  cases asked : rule.step o.toValue with
  | error e => simp [Defaults.evaluate, Defaults.advance, asked]
  | ok found =>
    cases found with
    | none => simp [Defaults.evaluate, Defaults.advance, asked, eq_comm]
    | some op =>
      cases applied : Patch.apply [op] o.toValue with
      | error failure => simp [Defaults.evaluate, Defaults.advance, asked, applied]
      | ok w => simp [Defaults.evaluate, Defaults.advance, asked, applied, eq_comm]

/-- A controller with a single rule, and what it takes for the rule to reach a fixed point. -/
structure Fixes (c : Controller) (rule : FieldRule) (value : Json) : Prop where
  mutate : c.mutate = Defaults.evaluate [rule]
  offers : ∀ v, rule.Offers v → v = value
  accepts : ∀ rejects better, rule.correction = some (rejects, better) → rejects value = false
  notNull : value ≠ .null
  ordered : value.Ordered
  fits : ∀ room, value.Fits room
  short : rule.path.length ≤ 125
  agree : ∀ {d o}, d.Ordered → Object.ofValue d = .ok o → Agree rule.path d o.toValue
  readable : ∀ {d o}, d.Ordered → Object.ofValue d = .ok o →
    ∃ next, Object.ofValue (fillAt value rule.path d) = .ok next

theorem fixes_replicas : Fixes ContainerSet.controller ContainerSet.replicasRule (.ofInt 1) where
  mutate := rfl
  offers := FieldRule.offers_eq rfl rfl
  accepts := FieldRule.accepts_of_correction rfl rfl
  notNull := by simp [Json.ofInt]
  ordered := .number _
  fits _ := .number ⟨by decide, by decide⟩
  short := by decide
  agree ordered read := Object.agree_spec ordered read ["replicas"]
  readable ordered read := Object.ofValue_fill_spec ordered read (.number _) "replicas" []

theorem fixes_mark : Fixes Noop.controller Noop.annotationRule (.string "true") where
  mutate := rfl
  offers := FieldRule.offers_eq rfl rfl
  accepts := FieldRule.accepts_of_correction rfl rfl
  notNull := by simp
  ordered := .string _
  fits _ := .string _
  short := by decide
  agree ordered read := Object.agree_annotation ordered read Noop.annotation
  readable ordered read := Object.ofValue_fill_annotation ordered read Noop.annotation "true"

section
variable {c : Controller} {rule : FieldRule} {value : Json} (fixes : Fixes c rule value) {d : Json}
include fixes

/-- A filled document is left alone. -/
theorem mutateDocument_fillAt {o : Object} (ordered : d.Ordered) (h : Object.ofValue d = .ok o) :
    c.mutateDocument (fillAt value rule.path d) = .ok (.ofMutation .unchanged) := by
  obtain ⟨next, read⟩ := fixes.readable ordered h
  have quiet : rule.step (fillAt value rule.path d) = .ok none :=
    FieldRule.stepFrom_fillAt fixes.notNull fixes.accepts [] rule.path d
  have same := fixes.agree (Json.ordered_fillAt fixes.ordered ordered) read
  have decided : Defaults.evaluate [rule] next = .ok .unchanged := by
    refine evaluate_eq_ok_iff.2 (.inl ⟨?_, rfl⟩)
    rw [← quiet]
    exact (FieldRule.stepFrom_congr same).symm
  exact mutateDocument_eq_ok_iff.2 ⟨next, .unchanged, read, fixes.mutate ▸ decided, rfl⟩

/-- The operation that the rule asks for is read back from the answer. -/
theorem decodedPatch_of_step {op : Operation} (asked : rule.step d = .ok (some op)) :
    (AdmissionResponse.ofMutation (.patch [op])).decodedPatch = .ok (some [op]) := by
  obtain ⟨v, offers, _, _, made⟩ := FieldRule.apply_step asked
  obtain rfl := fixes.offers v offers
  refine AdmissionResponse.decodedPatch_ofMutation (by simp) ?_ ?_
  · refine List.forall_mem_singleton.2 (made.imp ?_)
    rintro _ ⟨below, _, rfl⟩
    exact FieldRule.ordered_nest fixes.ordered below
  · refine List.forall_mem_singleton.2 (made.imp ?_)
    rintro _ ⟨below, part, rfl⟩
    exact FieldRule.fits_nest fixes.fits (Nat.le_trans part.length_le fixes.short)

theorem mutateDocument_of_rule {response : AdmissionResponse} (ordered : d.Ordered)
    (h : c.mutateDocument d = .ok response) :
    response.patch = none ∨ ∃ patch, response.decodedPatch = .ok (some patch) ∧
      patch.apply d = .ok (fillAt value rule.path d) ∧
      Json.FilledAt rule.path value d (fillAt value rule.path d) := by
  obtain ⟨o, mutation, read, decided, rfl⟩ := mutateDocument_eq_ok_iff.1 h
  rw [fixes.mutate] at decided
  rcases evaluate_eq_ok_iff.1 decided with ⟨_, rfl⟩ | ⟨op, _, asked, _, rfl⟩
  · exact .inl rfl
  · have step : rule.step d = .ok (some op) :=
      (FieldRule.stepFrom_congr (fixes.agree ordered read)).trans asked
    obtain ⟨v, offers, applied, filled, _⟩ := FieldRule.apply_step step
    obtain rfl := fixes.offers v offers
    exact .inr ⟨[op], decodedPatch_of_step fixes step, applied, filled⟩

end

theorem fixes_of_fillsIn {path : List String} {value : Json} {c : Controller} :
    c.FillsIn path value → ∃ rule, Fixes c rule value ∧ rule.path = path
  | .replicas => ⟨_, fixes_replicas, rfl⟩
  | .mark => ⟨_, fixes_mark, rfl⟩

/-- **Fixed point of mutation.** When a controller answers the document of a client, the answer has
no patch, or it has one that applies to this very document. The result is read as an object, is
answered without a patch, and differs from what the client sent in one place only. Values in memory
are ordered, as `ordered` says. -/
theorem mutate_reaches_fixed_point {c : Controller} {path : List String} {value : Json}
    (target : c.FillsIn path value) {d : Json} (ordered : d.Ordered)
    {response : AdmissionResponse} (answered : c.mutateDocument d = .ok response) :
    response.patch = none ∨
      ∃ patch after, response.decodedPatch = .ok (some patch) ∧ patch.apply d = .ok after ∧
        (∃ o, Object.ofValue after = .ok o) ∧
        (∃ again, c.mutateDocument after = .ok again ∧ again.patch = none) ∧
        after.Ordered ∧ Json.FilledAt path value d after := by
  obtain ⟨rule, fixes, rfl⟩ := fixes_of_fillsIn target
  obtain ⟨o, _, read, _⟩ := mutateDocument_eq_ok_iff.1 answered
  refine (mutateDocument_of_rule fixes ordered answered).imp_right ?_
  rintro ⟨patch, decoded, applied, filled⟩
  exact ⟨patch, _, decoded, applied, fixes.readable ordered read,
    ⟨_, mutateDocument_fillAt fixes ordered read, rfl⟩,
    Json.ordered_fillAt fixes.ordered ordered, filled⟩

/-- A client's document with an unknown member and a null among its metadata. -/
def clientDocument : Json :=
  .object [("kind", .string ""),
    ("metadata", .object [("annotations", .null), ("color", .string "red")])]

theorem clientDocument_ordered : clientDocument.Ordered := by
  have metadata : (Json.object [("annotations", .null), ("color", .string "red")]).Ordered :=
    .object (by decide) (by simpa using ⟨.null, .string _⟩)
  exact .object (by decide) (by simpa using ⟨.string _, metadata⟩)

/-- The annotation is made where null stood, and the unknown member stays. -/
theorem mutate_reaches_fixed_point_beside_unknown_members :
    clientDocument.Ordered ∧ ∃ response patch after,
      Noop.controller.mutateDocument clientDocument = .ok response ∧
      response.decodedPatch = .ok (some patch) ∧ patch.apply clientDocument = .ok after ∧
      after.at? ["metadata", "annotations"] = some (.object [("noop", .string "true")]) ∧
      after.at? ["metadata", "color"] = some (.string "red") := by
  have answered : Noop.controller.mutateDocument clientDocument = .ok (.ofMutation (.patch
      [.add ⟨["metadata", "annotations"]⟩ (.object [("noop", .string "true")])])) := rfl
  rcases mutate_reaches_fixed_point .mark clientDocument_ordered answered with
    none | ⟨patch, after, decoded, applied, _, _, _, filled⟩
  · cases none
  · have made := filled.made ["metadata"] "annotations" ["noop"] rfl rfl
    have kept := filled.kept ["metadata", "color"] (by decide) (by decide)
    exact ⟨clientDocument_ordered, _, patch, after, answered, decoded, applied, made, kept⟩

end Controller

end ControllerHooks
