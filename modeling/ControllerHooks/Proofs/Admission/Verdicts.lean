import ControllerHooks.Proofs.Admission.Answers
import ControllerHooks.Proofs.Admission.Views

/-!
# What validation decides

Validation reads a typed view of the specification, and faults when there is none. Otherwise the
verdict is that of the first rule that does not hold.

* `Rules.evaluate_append`: later rules count where the earlier ones allow.
* `ContainerSet.decision` and `Noop.decision`: what is decided on a specification, said of its
  values. `ContainerSet.Unreadable` and `Noop.Unreadable`: when there is no typed view of it.
* `Controller.validation_decides`: the hooks decide this, and look at nothing else.
-/

namespace ControllerHooks

open Json (fieldOrNull)

/-! ## Rules -/

namespace Rules

variable {α : Type}

@[simp]
theorem evaluate_nil (subject : α) : evaluate [] subject = .allow := rfl

@[simp]
theorem evaluate_cons (rule : Rule α) (rest : List (Rule α)) (subject : α) :
    evaluate (rule :: rest) subject =
      if rule.holds subject then evaluate rest subject else .deny rule.message := by
  unfold evaluate
  rw [List.find?_cons]
  cases rule.holds subject <;> rfl

/-- Later rules count where the earlier ones allow. -/
theorem evaluate_append (first second : List (Rule α)) (subject : α) :
    evaluate (first ++ second) subject =
      match evaluate first subject with
      | .allow => evaluate second subject
      | .deny reason => .deny reason := by
  induction first with
  | nil => rfl
  | cons rule rest ih =>
    rw [List.cons_append, evaluate_cons, evaluate_cons, ih]
    split <;> rfl

end Rules

/-! ## Values -/

namespace Json

/-- An integer of 32 bits, with a sign. -/
def IsInt32 (v : Json) : Prop := ∃ n : Int, v = .ofInt n ∧ -0x80000000 ≤ n ∧ n < 0x80000000

def IsText (v : Json) : Prop := ∃ s, v = .string s

end Json

namespace Reader

variable {origin : Origin} {v : Json}

theorem exists_int32_iff : (∃ n, int32 (Doc.ofJson origin v) = .ok n) ↔ v.IsInt32 := by
  constructor
  · rintro ⟨n, read⟩
    exact ⟨n.toInt, int32_eq_ok read, n.le_toInt, n.toInt_lt⟩
  · rintro ⟨n, rfl, bounds⟩
    exact ⟨Int32.ofInt n, by simp [int32, Json.ofInt, Doc.ofJson, integer, bounds]⟩

theorem exists_string_iff : (∃ s, string (Doc.ofJson origin v) = .ok s) ↔ v.IsText := by
  simp only [string_eq_ok_iff, Doc.ofJson_eq_string_iff]
  rfl

/-- The value of an optional field is told by its view. -/
theorem eq_of_optional {α : Type} {read : Reader α} {toJson : α → Json} {x : Option α}
    (told : ∀ y, read (Doc.ofJson origin v) = .ok y → v = toJson y)
    (h : optional read (Doc.ofJson origin v) = .ok x) : v = (x.map toJson).getD .null := by
  rcases of_optional h with ⟨null, rfl⟩ | ⟨_, y, read, rfl⟩
  · exact Doc.ofJson_eq_null_iff.1 null
  · exact told y read

end Reader

/-! ## Container sets -/

namespace ContainerSet

/-- The number of replicas that a specification gives. -/
def givenReplicas (spec : Json) : Json := spec.fieldOrNull "replicas" 0

def givenImage (spec : Json) : Json := spec.fieldOrNull "image" 1

/-- There is no typed view of the specification. -/
def Unreadable (spec : Json) : Prop :=
  spec ≠ .null ∧ ¬ spec.IsRecord 2 ∨
  givenReplicas spec ≠ .null ∧ ¬ (givenReplicas spec).IsInt32 ∨
  givenImage spec ≠ .null ∧ ¬ (givenImage spec).IsText

/-- What is decided on a specification of which there is a typed view. -/
def decision (spec : Json) : Verdict :=
  if givenReplicas spec = .null then .deny "'spec.replicas' must be specified"
  else if givenReplicas spec = .ofInt 0 then .deny "'spec.replicas' must be non-zero value"
  else if givenImage spec = .null then .deny "'spec.image' must be specified"
  else if givenImage spec = .string "" then .deny "'spec.image' is empty"
  else .allow

/-- The fields of the typed view. -/
def viewFields : List (Field ContainerSetSpec) :=
  [.optional "replicas" Reader.int32 fun s n => { s with replicas := n },
    .optional "image" Reader.string fun s image => { s with image := image }]

theorem viewFields_optional : Record.AreOptional viewFields where
  distinct := by decide
  optional := by
    simp only [viewFields, List.forall_mem_cons]
    exact ⟨⟨_, _, _, rfl⟩, ⟨_, _, _, rfl⟩, by simp⟩

variable {v : Json} {s : ContainerSetSpec}

theorem readable_iff (notNull : v ≠ .null) (ordered : v.Ordered) :
    (∃ s : ContainerSetSpec, Payload.read (Doc.ofJson .memory v) = .ok s) ↔ ¬ Unreadable v := by
  refine (Record.readable_iff viewFields_optional ordered).trans ?_
  simp only [viewFields, List.zipIdx_cons, List.zipIdx_nil, List.forall_mem_cons,
    Field.takes_optional ContainerSetSpec.blank, Reader.exists_int32_iff, Reader.exists_string_iff,
    List.not_mem_nil, false_implies, implies_true, and_true]
  change v.IsRecord 2 ∧ (givenReplicas v = .null ∨ (givenReplicas v).IsInt32) ∧
    (givenImage v = .null ∨ (givenImage v).IsText) ↔ ¬ Unreadable v
  simp only [Unreadable, not_or, not_and_or, not_not, notNull, false_or]

theorem givenReplicas_of_view (ordered : v.Ordered)
    (read : Payload.read (Doc.ofJson .memory v) = .ok s) :
    givenReplicas v = (s.replicas.map fun n => .ofInt n.toInt).getD .null := by
  refine Reader.eq_of_optional (fun n => Reader.int32_eq_ok) (Record.part_of_read
    viewFields_optional ordered read rfl (fun _ _ => rfl) rfl ?_)
  simp [viewFields, Field.optional, Field.keeps_set]

theorem givenImage_of_view (ordered : v.Ordered)
    (read : Payload.read (Doc.ofJson .memory v) = .ok s) :
    givenImage v = (s.image.map .string).getD .null := by
  refine Reader.eq_of_optional (fun text string => ?_) (Record.part_of_read
    viewFields_optional ordered read rfl (fun _ _ => rfl) rfl ?_)
  · exact Doc.ofJson_eq_string_iff.1 (Reader.string_eq_ok_iff.1 string)
  · simp [viewFields, Field.optional, Field.keeps_set]

/-- The rules decide on the view what is decided on the specification. -/
theorem evaluate_view (ordered : v.Ordered) (read : Payload.read (Doc.ofJson .memory v) = .ok s) :
    Rules.evaluate rules s = decision v := by
  have zero (n : Int32) : Json.ofInt n.toInt = .ofInt 0 ↔ n = 0 := by
    simp [Json.ofInt, ← Int32.toInt_inj]
  have number (n : Int) : Json.ofInt n ≠ .null := by simp [Json.ofInt]
  rw [decision, givenReplicas_of_view ordered read, givenImage_of_view ordered read]
  cases replicas : s.replicas <;> cases image : s.image <;>
    simp [rules, replicas, image, zero, number]

/-- What is allowed has a number of replicas that is not zero, and an image that is not empty. -/
theorem decision_eq_allow_iff {spec : Json} (readable : ¬ Unreadable spec) :
    decision spec = .allow ↔
      ((givenReplicas spec).IsInt32 ∧ givenReplicas spec ≠ .ofInt 0) ∧
        (givenImage spec).IsText ∧ givenImage spec ≠ .string "" := by
  simp only [Unreadable, not_or, not_and_or, not_not] at readable
  obtain ⟨_, replicas, image⟩ := readable
  have number : (givenReplicas spec).IsInt32 ↔ givenReplicas spec ≠ .null := by
    refine ⟨?_, replicas.resolve_left⟩
    rintro ⟨n, given, _⟩ none
    cases given.symm.trans none
  have text : (givenImage spec).IsText ↔ givenImage spec ≠ .null := by
    refine ⟨?_, image.resolve_left⟩
    rintro ⟨s, given⟩ none
    cases given.symm.trans none
  rw [number, text, decision]
  split_ifs <;> simp_all

end ContainerSet

/-! ## Noop objects -/

namespace Noop

def givenData (spec : Json) : Json := spec.fieldOrNull "data" 0

/-- There is no typed view of the specification. -/
def Unreadable (spec : Json) : Prop := spec ≠ .null ∧ ¬ spec.IsRecord 1

/-- What is decided on a specification of which there is a typed view. -/
def decision (spec : Json) : Verdict :=
  if spec = .null then .deny "'spec' is empty"
  else if givenData spec = .string "" then .deny "'spec.data' is empty"
  else .allow

/-- The fields of the typed view. -/
def viewFields : List (Field NoopSpec) := [.optional "data" Reader.json fun _ value => ⟨value⟩]

theorem viewFields_optional : Record.AreOptional viewFields where
  distinct := by decide
  optional := by
    simp only [viewFields, List.forall_mem_cons]
    exact ⟨⟨_, _, _, rfl⟩, by simp⟩

variable {v : Json} {s : NoopSpec}

theorem readable_iff (notNull : v ≠ .null) (ordered : v.Ordered) :
    (∃ s, NoopSpec.read (Doc.ofJson .memory v) = .ok s) ↔ ¬ Unreadable v := by
  have data : ∃ x, Reader.json (Doc.ofJson .memory (givenData v)) = .ok x :=
    ⟨_, Reader.json_ofJson (Json.ordered_fieldOrNull ordered _ _) _⟩
  have takes : ∀ e ∈ viewFields.zipIdx, e.1.Takes .memory (v.fieldOrNull e.1.name e.2) := by
    simp only [viewFields, List.zipIdx_cons, List.zipIdx_nil, List.forall_mem_cons,
      Field.takes_optional (⟨none⟩ : NoopSpec), List.not_mem_nil, false_implies, implies_true,
      and_true]
    exact .inr data
  refine (Record.readable_iff viewFields_optional ordered).trans ?_
  simp only [and_iff_left takes, Unreadable, notNull, ne_eq, not_false_eq_true, true_and, not_not]
  rfl

theorem givenData_of_view (ordered : v.Ordered)
    (read : NoopSpec.read (Doc.ofJson .memory v) = .ok s) : givenData v = s.data.getD .null := by
  have view : givenData v = (s.data.map id).getD .null := by
    refine Reader.eq_of_optional (fun x told => ?_) (Record.part_of_read
      viewFields_optional ordered read rfl (fun _ _ => rfl) rfl ?_)
    · have same := Reader.json_ofJson (Json.ordered_fieldOrNull ordered "data" 0) .memory
      exact Except.ok.inj (same.symm.trans told)
    · simp [viewFields, Field.optional]
  rwa [Option.map_id] at view

/-- The rules decide on the view what is decided on the specification. -/
theorem evaluate_view (notNull : v ≠ .null) (ordered : v.Ordered)
    (read : NoopSpec.read (Doc.ofJson .memory v) = .ok s) :
    Rules.evaluate rules (some s) = decision v := by
  rw [decision, if_neg notNull, givenData_of_view ordered read]
  cases data : s.data with
  | none => simp [rules, data]
  | some x => cases x <;> simp [rules, data, Json.string?]

end Noop

/-! ## The hooks -/

namespace Controller

/-- The hook faults when there is no typed view of the specification, and otherwise answers with
the verdict. -/
structure Decides (c : Controller) (request : Bytes) (unreadable : Prop) (verdict : Verdict) :
    Prop where
  faults : unreadable →
    ∃ reason, c.invoke .validate request = .error (.invalidField "spec" reason)
  answers : ¬ unreadable →
    c.invoke .validate request = .ok (Payload.encode (AdmissionResponse.ofVerdict verdict))

variable {c : Controller} {text : Bytes} {request : AdmissionRequest}

theorem invoke_validate_of_decode (read : Payload.decode text = .ok request) :
    c.invoke .validate text =
      (c.validate request.object).map fun verdict =>
        Payload.encode (AdmissionResponse.ofVerdict verdict) := by
  have decoded : Payload.request text = .ok request := by simp [Payload.request, read]
  cases verdict : c.validate request.object <;> simp [invoke, answerValidate, decoded, verdict]

theorem Decides.of_fault {unreadable : Prop} {verdict : Verdict} {reason : String}
    (read : Payload.decode text = .ok request) (faulty : unreadable)
    (faulted : c.validate request.object = .error (.invalidField "spec" reason)) :
    c.Decides text unreadable verdict where
  faults _ := ⟨reason, by rw [invoke_validate_of_decode read, faulted, error_map]⟩
  answers fine := absurd faulty fine

theorem Decides.of_verdict {unreadable : Prop} {verdict : Verdict}
    (read : Payload.decode text = .ok request) (fine : ¬ unreadable)
    (judged : c.validate request.object = .ok verdict) :
    c.Decides text unreadable verdict where
  faults faulty := absurd faulty fine
  answers _ := by rw [invoke_validate_of_decode read, judged, ok_map]

/-- The specification of a request is a value, and null is none. -/
theorem spec_of_decode (read : Payload.decode text = .ok request) :
    ∀ v ∈ request.object.spec, v ≠ .null ∧ v.Ordered := by
  intro v hv
  have within : (Document.parse text).root.Within (fun _ => True) (122 + 5) :=
    Document.parse_within fun _ _ => trivial
  have legible := AdmissionRequest.legible_of_read (Payload.read_of_decode read) within
  obtain ⟨notNull, legible⟩ := legible.spec v hv
  exact ⟨notNull, legible.ordered⟩

/-- What is decided on a typed view is decided on the specification. -/
theorem decides_of_view {α : Type} {reader : Reader α} {judge : Option α → Verdict}
    {unreadable : Json → Prop} {decision : Json → Verdict}
    (validate : ∀ o, c.validate o = (o.specAs reader).map judge)
    (readable : ∀ {v : Json}, v ≠ .null → v.Ordered →
      ((∃ x, reader (Doc.ofJson .memory v) = .ok x) ↔ ¬ unreadable v))
    (view : ∀ {v : Json} {x : α}, v ≠ .null → v.Ordered →
      reader (Doc.ofJson .memory v) = .ok x → judge (some x) = decision v)
    (absent : ¬ unreadable .null ∧ judge none = decision .null)
    (read : Payload.decode text = .ok request) :
    c.Decides text (unreadable (request.object.spec.getD .null))
      (decision (request.object.spec.getD .null)) := by
  have given := spec_of_decode read
  cases spec : request.object.spec with
  | none => exact .of_verdict read absent.1 (by simp [validate, Object.specAs, spec, absent.2])
  | some v =>
    obtain ⟨notNull, ordered⟩ := given v spec
    cases typed : reader (Doc.ofJson .memory v) with
    | error e =>
      have faulty : unreadable v := by
        by_contra fine
        obtain ⟨x, read⟩ := (readable notNull ordered).2 fine
        cases typed.symm.trans read
      have faulted : c.validate request.object = .error (.invalidField "spec" e.message) := by
        simp [validate, Object.specAs, spec, typed]
      exact .of_fault read faulty faulted
    | ok x =>
      refine .of_verdict read ((readable notNull ordered).1 ⟨x, typed⟩) ?_
      simp [validate, Object.specAs, spec, typed, view notNull ordered typed]

theorem containerSet_decides (read : Payload.decode text = .ok request) :
    ContainerSet.controller.Decides text
      (ContainerSet.Unreadable (request.object.spec.getD .null))
      (ContainerSet.decision (request.object.spec.getD .null)) := by
  let judge (view : Option ContainerSetSpec) : Verdict :=
    Rules.evaluate ContainerSet.rules (view.getD .blank)
  have validate (o : Object) : ContainerSet.controller.validate o =
      (o.specAs Payload.read).map judge := by
    cases view : o.specAs (Payload.read : Reader ContainerSetSpec) <;>
      simp [ContainerSet.controller, ContainerSet.validate, view, judge]
  have absent : ¬ ContainerSet.Unreadable .null := by
    simp [ContainerSet.Unreadable, ContainerSet.givenReplicas, ContainerSet.givenImage,
      fieldOrNull]
  exact decides_of_view validate ContainerSet.readable_iff
    (fun _ => ContainerSet.evaluate_view) ⟨absent, rfl⟩ read

theorem noop_decides (read : Payload.decode text = .ok request) :
    Noop.controller.Decides text (Noop.Unreadable (request.object.spec.getD .null))
      (Noop.decision (request.object.spec.getD .null)) := by
  have validate (o : Object) : Noop.controller.validate o =
      (o.specAs NoopSpec.read).map (Rules.evaluate Noop.rules) := by
    cases view : o.specAs NoopSpec.read <;> simp [Noop.controller, Noop.validate, view]
  exact decides_of_view validate Noop.readable_iff Noop.evaluate_view
    ⟨by simp [Noop.Unreadable], rfl⟩ read

/-- Validation looks at the specification only. -/
theorem validate_congr (registered : c ∈ all) {a b : Object} (same : a.spec = b.spec) :
    c.validate a = c.validate b := by
  rcases mem_all_iff.1 registered with rfl | rfl
  · simp [ContainerSet.controller, ContainerSet.validate, Object.specAs, same]
  · simp [Noop.controller, Noop.validate, Object.specAs, same]

/-- **Verdicts.** Of any request that decodes, validation decides what is decided on its
specification, or faults when there is no typed view of that. It looks at nothing else in the
request, and of the rules that do not hold the first one is the reason. -/
theorem validation_decides (read : Payload.decode text = .ok request) :
    let spec := request.object.spec.getD .null
    request.object.spec ≠ some .null ∧
    ContainerSet.controller.Decides text (ContainerSet.Unreadable spec)
      (ContainerSet.decision spec) ∧
    (¬ ContainerSet.Unreadable spec → (ContainerSet.decision spec = .allow ↔
      ((ContainerSet.givenReplicas spec).IsInt32 ∧ ContainerSet.givenReplicas spec ≠ .ofInt 0) ∧
        (ContainerSet.givenImage spec).IsText ∧ ContainerSet.givenImage spec ≠ .string "")) ∧
    Noop.controller.Decides text (Noop.Unreadable spec) (Noop.decision spec) ∧
    (∀ c ∈ all, ∀ (other : Bytes) (otherRequest : AdmissionRequest),
      Payload.decode other = .ok otherRequest → otherRequest.object.spec = request.object.spec →
      c.invoke .validate other = c.invoke .validate text) ∧
    ∀ (α : Type) (first second : List (Rule α)) (subject : α),
      Rules.evaluate (first ++ second) subject =
        match Rules.evaluate first subject with
        | .allow => Rules.evaluate second subject
        | .deny reason => .deny reason := by
  intro spec
  refine ⟨fun null => (spec_of_decode read _ null).1 rfl, containerSet_decides read,
    ContainerSet.decision_eq_allow_iff, noop_decides read, ?_,
    fun _ => Rules.evaluate_append⟩
  intro c registered other otherRequest otherRead same
  rw [invoke_validate_of_decode otherRead, invoke_validate_of_decode read,
    validate_congr registered same]

/-- Of two reasons the first one is told, an array with two items is no specification of a noop
object, and null is no specification at all. -/
theorem validation_decides_of_positional_spec :
    let zero := (requestOf (.array [.ofInt 0, .string ""])).bytes
    let null := (requestOf .null).bytes
    (∃ request : AdmissionRequest, Payload.decode zero = .ok request) ∧
    ContainerSet.controller.invoke .validate zero = .ok (Payload.encode
      (AdmissionResponse.ofVerdict (.deny "'spec.replicas' must be non-zero value"))) ∧
    (∃ reason, Noop.controller.invoke .validate zero = .error (.invalidField "spec" reason)) ∧
    Noop.controller.invoke .validate null =
      Noop.controller.invoke .validate emptyObjectRequest.bytes := by
  intro zero null
  have decodes {v : Json} (fits : v.Fits 125) : Payload.decode (requestOf v).bytes =
      (Payload.read (Doc.ofJson .text (requestOf v)) : Except DecodeError AdmissionRequest) := by
    have inner : Json.Fits 126 (.object [("spec", v)]) := .object (by simpa using fits)
    have whole : (requestOf v).Fits Document.depthLimit := .object (by simpa using inner)
    exact Payload.decode_bytes whole
  have items : (Json.array [.ofInt 0, .string ""]).Fits 125 := by
    have number : (Json.ofInt 0).Fits 124 := .number ⟨by decide, by decide⟩
    exact .array (by simpa using ⟨number, .string _⟩)
  have read : Payload.decode zero = .ok
      (⟨{ Object.blank with spec := some (.array [.ofInt 0, .string ""]) }⟩ : AdmissionRequest) :=
    (decodes items).trans rfl
  have readNull : Payload.decode null = .ok (⟨.blank⟩ : AdmissionRequest) :=
    (decodes .null).trans rfl
  obtain ⟨_, containerSet, _, noop, _, _⟩ := validation_decides read
  obtain ⟨_, _, _, _, alike, _⟩ := validation_decides decode_emptyObjectRequest
  have readable : ¬ ContainerSet.Unreadable (.array [.ofInt 0, .string ""]) := by
    rintro (⟨_, long⟩ | ⟨_, untyped⟩ | ⟨_, untyped⟩)
    · exact long (Nat.le_refl 2)
    · exact untyped ⟨0, rfl, by decide, by decide⟩
    · exact untyped ⟨"", rfl⟩
  have tooLong : Noop.Unreadable (.array [.ofInt 0, .string ""]) := by
    simp [Noop.Unreadable, Json.IsRecord]
  refine ⟨⟨_, read⟩, containerSet.answers readable, noop.faults tooLong, ?_⟩
  exact alike _ (mem_all_iff.2 (.inr rfl)) null _ readNull rfl

end Controller

end ControllerHooks
