import ControllerHooks.Proofs.Admission.FixedPoint
import ControllerHooks.Proofs.Reconcile.Idempotence

/-!
# What is admitted can be mutated

A client's write is validated first and mutated then. Validation reads the specification through a
typed view, which takes an array that gives the fields by position, too; mutation walks the members
of the document.

* `Controller.mutate_after_validate`: a request that validation allows is answered by mutation, and
  what becomes of it is allowed again. Only a container set refuses to mutate a specification that
  is an array.
-/

namespace ControllerHooks

open Record (Fills)
open Json (memberOrNull Opens fillAt)

/-! ## Requests -/

namespace AdmissionRequest

abbrev fields : List (Field AdmissionRequest) := [.required "object" Payload.read fun _ o => ⟨o⟩]

/-- The document that a request carries. -/
def document? : Json → Option Json
  | .object members => Entries.find? "object" members
  | .array [d] => some d
  | _ => none

/-- The request with another document in it. -/
def withDocument (d : Json) : Json → Json
  | .object members => .object (Entries.insert "object" d members)
  | .array _ => .array [d]
  | request => request

theorem document?_withDocument {request old : Json} (h : document? request = some old) (d : Json) :
    document? (withDocument d request) = some d := by
  cases request with
  | object members => exact Entries.find?_insert_self "object" d members
  | array items => rfl
  | null | bool | number | string => cases h

theorem ordered_document {request d : Json} (ordered : request.Ordered)
    (h : document? request = some d) : d.Ordered := by
  cases ordered with
  | object sorted inside => exact (Json.Ordered.object sorted inside).of_find? h
  | @array items inside =>
    match items, h with
    | [d], rfl => exact inside d List.mem_cons_self
  | null | bool | number | string => cases h

theorem ordered_withDocument {request d : Json} (ordered : request.Ordered) (h : d.Ordered) :
    (withDocument d request).Ordered := by
  cases ordered with
  | object sorted inside => exact Json.ordered_insert (.object sorted inside) h
  | array _ => exact .array (by simpa [withDocument] using h)
  | null => exact .null
  | bool b => exact .bool b
  | number n => exact .number n
  | string s => exact .string s

theorem steady : Fills.Steady fields Record.ignore := by
  apply Fills.steady_of_fields
  · simp [fields, Field.required, Field.isSteady_set]
  · intro r next name d kept s
    obtain ⟨read, _⟩ := Record.ignore_eq_ok_iff.1 kept
    exact ⟨s, Record.ignore_eq_ok_iff.2 ⟨read, rfl⟩⟩

/-- What is read from an object is the document under its one field. -/
theorem object_of_fills {members : List (String × Json)} {request : AdmissionRequest}
    (sorted : Entries.Sorted members)
    (h : Fills fields Record.ignore ⟨.blank⟩ (Doc.ofMembers .memory members) request)
    (given : .text "object" ∈ (Doc.ofMembers .memory members).map Prod.fst) :
    ∃ d, Entries.find? "object" members = some d ∧ Payload.ofJson d = .ok request.object := by
  have tells (r : AdmissionRequest) (d : Doc) (next : AdmissionRequest)
      (filled : Field.set Payload.read (fun _ o => ⟨o⟩) r d = .ok next) :
      Payload.read d = .ok next.object := by
    obtain ⟨o, read, rfl⟩ := map_eq_ok.1 filled
    exact read
  have known : Record.field? fields "object" =
      some (.required "object" Payload.read fun _ o => ⟨o⟩) := rfl
  rcases h.get object (fun d o => Payload.read d = .ok o) known (fun {r d next} => tells r d next)
      (by simp [fields, Field.required]) (fun kept => Record.ignore_keeps kept) with
    ⟨absent, _⟩ | ⟨d, member, told⟩
  · obtain ⟨m, hm, here⟩ := List.mem_map.1 given
    exact absurd here (absent m hm)
  · obtain ⟨⟨k, v⟩, he, same⟩ := Doc.mem_ofMembers.1 member
    obtain ⟨rfl, rfl⟩ : "object" = k ∧ d = Doc.ofJson .memory v := by simpa using same
    exact ⟨v, sorted.find?_eq he, told⟩

/-- An object with a document that can be read under its one field can be read. -/
theorem fills_of_object {members : List (String × Json)} {d : Json} {o : Object}
    (sorted : Entries.Sorted members) (found : Entries.find? "object" members = some d)
    (read : Payload.ofJson d = .ok o) :
    ∃ request, Fills fields Record.ignore ⟨.blank⟩ (Doc.ofMembers .memory members) request := by
  refine Fills.of_members steady ?_ _
  intro m hm
  obtain ⟨⟨k, v⟩, he, rfl⟩ := Doc.mem_ofMembers.1 hm
  by_cases here : k = "object"
  · subst here
    obtain rfl : d = v := Option.some.inj (found.symm.trans (sorted.find?_eq he))
    exact ⟨⟨.blank⟩, ⟨o⟩, .given rfl read rfl⟩
  · have unknown : Record.field? fields k = none := by
      simp [Record.field?, fields, Field.required, Ne.symm here]
    have passed : Record.ignore (⟨.blank⟩ : AdmissionRequest) k (Doc.ofJson .memory v) =
        .ok ⟨.blank⟩ := Record.ignore_eq_ok_iff.2 ⟨⟨(), Reader.ignored_ofJson v .memory⟩, rfl⟩
    exact ⟨⟨.blank⟩, ⟨.blank⟩, .cons ((Record.place_unknown unknown).trans passed) (.nil _)⟩

theorem ofJson_eq_ok_iff {request : Json} (ordered : request.Ordered) {r : AdmissionRequest} :
    Payload.ofJson request = .ok r ↔
      ∃ d, document? request = some d ∧ Payload.ofJson d = .ok r.object := by
  cases request with
  | object members =>
    have whole : (Payload.ofJson (.object members) : Except DecodeError AdmissionRequest) =
        Record.ofMembers fields Record.ignore ⟨.blank⟩ (Doc.ofMembers .memory members)
          (.closed .memory) := rfl
    rw [whole]
    constructor
    · intro read
      have given := Record.required_of_ofMembers read _ List.mem_cons_self rfl
      exact object_of_fills ordered.sorted (Record.fills_of_ofMembers read).1 given
    · rintro ⟨d, found, read⟩
      have given : .text "object" ∈ (Doc.ofMembers .memory members).map Prod.fst :=
        List.mem_map.2 ⟨_, Doc.mem_ofMembers.2 ⟨_, Entries.mem_of_find? found, rfl⟩, rfl⟩
      obtain ⟨last, fills⟩ := fills_of_object ordered.sorted found read
      obtain ⟨d', found', read'⟩ := object_of_fills ordered.sorted fills given
      obtain rfl : d = d' := Option.some.inj (found.symm.trans found')
      obtain rfl : r = last := by
        cases r; cases last
        simpa using read.symm.trans read'
      have distinct : ((Doc.ofMembers .memory members).map Prod.fst).Nodup :=
        Doc.nodup_ofMembers ordered.sorted.keys_nodup
      exact Record.ofMembers_of_fills fills distinct (by simpa [fields, Field.required] using given)
        rfl
  | array items =>
    cases items with
    | nil =>
      simp [document?, Payload.ofJson, Payload.read, Doc.ofJson, Doc.ofItems, Record.read,
        Record.ofItems, Field.required, Reader.wellFormed, Doc.readFlaw, Close.arrayFlaw]
    | cons d more =>
      cases more with
      | nil =>
        have whole : (Payload.ofJson (.array [d]) : Except DecodeError AdmissionRequest) =
            ((Payload.ofJson d).map AdmissionRequest.mk >>= .ok) := rfl
        simp only [whole, bind_eq_ok, map_eq_ok, document?, Option.some.injEq, Except.ok.injEq]
        constructor
        · rintro ⟨_, ⟨o, read, rfl⟩, rfl⟩
          exact ⟨d, rfl, read⟩
        · rintro ⟨_, rfl, read⟩
          exact ⟨_, ⟨_, read, rfl⟩, rfl⟩
      | cons e rest =>
        have whole :
            (Payload.ofJson (.array (d :: e :: rest)) : Except DecodeError AdmissionRequest) =
            ((Payload.ofJson d).map AdmissionRequest.mk >>= fun r =>
              Record.endItems 1 (Doc.ofItems .memory (e :: rest)) (.closed .memory) >>= fun _ =>
                .ok r) := rfl
        simp [whole, bind_eq_ok, Record.endItems, document?, Doc.ofItems]
  | null | bool | number | string =>
    simp [document?, Payload.ofJson, Payload.read, Doc.ofJson, Record.read]

end AdmissionRequest

/-! ## Verdicts -/

theorem Rules.evaluate_eq_allow_iff {α : Type} {rules : List (Rule α)} {subject : α} :
    Rules.evaluate rules subject = .allow ↔ ∀ rule ∈ rules, rule.holds subject = true := by
  unfold Rules.evaluate
  split
  · rename_i rule found
    have broken := List.find?_some found
    simp only [reduceCtorEq, false_iff]
    intro all
    simp [all rule (List.mem_of_find?_eq_some found)] at broken
  · rename_i none
    simpa using none

theorem AdmissionResponse.allowed_ofVerdict {verdict : Verdict} :
    (AdmissionResponse.ofVerdict verdict).allowed = true ↔ verdict = .allow := by
  cases verdict <;> simp [AdmissionResponse.ofVerdict]

/-! ## Rules that can be planned -/

/-- A rule faults only where something else than an object stands on its path. -/
theorem FieldRule.stepFrom_opens {rule : FieldRule} {walked rest : List String} {v : Json}
    (opens : Opens rest v) (notNull : v ≠ .null) :
    ∃ asked, stepFrom rule walked rest v = .ok asked := by
  induction rest generalizing walked v with
  | nil =>
    cases correction : rule.correction <;> simp [stepFrom, correction]
  | cons token rest ih =>
    cases v with
    | object members =>
      rw [stepFrom_cons]
      split
      · exact ⟨_, rfl⟩
      · rename_i present
        exact ih opens (mt isNull_eq_true.2 present)
    | null => exact absurd rfl notNull
    | bool | number | string | array => cases opens

namespace ContainerSetSpec

theorem replicas_of_read {members : List (String × Json)} {spec : ContainerSetSpec}
    (sorted : Entries.Sorted members)
    (h : Payload.read (Doc.ofJson .memory (.object members)) = .ok spec) :
    Reader.optional Reader.int32 (Doc.ofJson .memory (memberOrNull "replicas" members)) =
      .ok spec.replicas := by
  have fills := (Record.fills_of_ofMembers h).1
  refine fills.get_optional sorted.keys_nodup rfl (fun _ _ => rfl) rfl ?_ Record.ignore_keeps
  simp [Field.optional, Field.keeps_set]

end ContainerSetSpec

/-- A number that is read is the number that stands there. -/
theorem Reader.int32_eq_ok {v : Json} {origin : Origin} {n : Int32}
    (h : Reader.int32 (Doc.ofJson origin v) = .ok n) : v = .ofInt n.toInt := by
  obtain ⟨z, read, rfl⟩ := map_eq_ok.1 h
  cases v with
  | number number =>
    cases number with
    | int m =>
      simp only [Doc.ofJson, Reader.integer] at read
      split at read
      · rename_i range
        obtain rfl := Except.ok.inj read
        rw [Int32.toInt_ofInt_of_le (by omega) (by omega)]
        rfl
      · cases read
    | real x => cases read
  | null | bool | string | array | object => cases read

namespace ContainerSet

/-- What is allowed has a specification with a number of replicas that is not zero. -/
theorem replicas_of_allow {o : Object} (h : validate o = .ok .allow) :
    ∃ v, o.spec = some v ∧ ∃ spec : ContainerSetSpec,
      Payload.read (Doc.ofJson .memory v) = .ok spec ∧ ∃ n, spec.replicas = some n ∧ n ≠ 0 := by
  simp only [validate, bind_eq_ok, pure_eq_ok_value, Except.ok.injEq] at h
  obtain ⟨view, read, allowed⟩ := h
  have all := Rules.evaluate_eq_allow_iff.1 allowed
  simp only [rules, List.forall_mem_cons, decide_eq_true_eq] at all
  obtain ⟨given, nonzero, _⟩ := all
  cases spec : o.spec with
  | none =>
    obtain rfl : none = view := by simpa [Object.specAs, spec] using read
    cases given
  | some v =>
    cases typed : (Payload.read (Doc.ofJson .memory v) : Except DecodeError ContainerSetSpec) with
    | error e => simp [Object.specAs, spec, typed] at read
    | ok typedSpec =>
      obtain rfl : some typedSpec = view := by simpa [Object.specAs, spec, typed] using read
      obtain ⟨n, some⟩ := Option.isSome_iff_exists.1 given
      exact ⟨v, rfl, typedSpec, typed, n, some, fun zero => nonzero (zero ▸ some)⟩

/-- A number of replicas that is not zero is left alone. -/
theorem isZero_of_int32 {v : Json} {n : Int32} (h : Reader.int32 (Doc.ofJson .memory v) = .ok n)
    (nonzero : n ≠ 0) : isZero v = false := by
  have other : n.toInt ≠ 0 := fun zero => nonzero (Int32.toInt_inj.1 zero)
  simp [Reader.int32_eq_ok h, isZero, Json.int64?, Json.ofInt, other]

/-- Nothing is asked for where an allowed specification is an object. -/
theorem step_of_members {o : Object} {members : List (String × Json)} {spec : ContainerSetSpec}
    {n : Int32} (unknown : ∀ e ∈ o.extra.entries, Record.field? Object.fields e.1 = none)
    (sorted : Entries.Sorted members) (stands : o.spec = some (.object members))
    (read : Payload.read (Doc.ofJson .memory (.object members)) = .ok spec)
    (given : spec.replicas = some n) (nonzero : n ≠ 0) :
    replicasRule.step o.toValue = .ok none := by
  have inside : memberOrNull "spec" (Entries.ofList o.members) = .object members := by
    rw [Object.memberOrNull_spec unknown, stands]
    rfl
  have view := ContainerSetSpec.replicas_of_read sorted read
  rw [given] at view
  rcases Reader.of_optional view with ⟨_, none⟩ | ⟨present, m, number, some⟩
  · cases none
  · obtain rfl : n = m := Option.some.inj some
    have accepted := isZero_of_int32 number nonzero
    have notNull : (memberOrNull "replicas" members).isNull = false := by
      rw [Bool.eq_false_iff]
      intro null
      exact present (by rw [FieldRule.isNull_eq_true.1 null]; rfl)
    have whole : replicasRule.step o.toValue =
        FieldRule.stepFrom replicasRule [] ["spec", "replicas"]
          (.object (Entries.ofList o.members)) := rfl
    rw [whole, FieldRule.stepFrom_cons, inside]
    simp only [Json.isNull, Bool.false_eq_true, if_false]
    rw [FieldRule.stepFrom_cons]
    simp [notNull, FieldRule.stepFrom, replicasRule, accepted]

theorem step_of_items {o : Object} {items : List Json}
    (unknown : ∀ e ∈ o.extra.entries, Record.field? Object.fields e.1 = none)
    (stands : o.spec = some (.array items)) :
    replicasRule.step o.toValue = .error (.invalidField "spec" "not an object") := by
  have inside : memberOrNull "spec" (Entries.ofList o.members) = .array items := by
    rw [Object.memberOrNull_spec unknown, stands]
    rfl
  have whole : replicasRule.step o.toValue =
      FieldRule.stepFrom replicasRule [] ["spec", "replicas"]
        (.object (Entries.ofList o.members)) := rfl
  rw [whole, FieldRule.stepFrom_cons, inside]
  rfl

end ContainerSet

namespace Noop

/-- The document of an object leads to its annotations. -/
theorem opens_mark {o : Object}
    (unknown : ∀ e ∈ o.extra.entries, Record.field? Object.fields e.1 = none) :
    Opens annotationRule.path o.toValue := by
  rw [annotationRule, Object.toValue, Json.opens_object, Object.memberOrNull_metadata unknown]
  cases o.metadata with
  | none => exact Json.opens_null _
  | some m =>
    refine Json.opens_object.2 ?_
    rw [Metadata.memberOrNull_annotations]
    cases m.annotations with
    | none => exact Json.opens_null _
    | some t => trivial

/-- Whatever the object, its mark can be planned. -/
theorem mutate_ok {o : Object}
    (unknown : ∀ e ∈ o.extra.entries, Record.field? Object.fields e.1 = none) :
    ∃ mutation, mutate o = .ok mutation := by
  have notNull : o.toValue ≠ .null := by simp [Object.toValue]
  obtain ⟨asked, step⟩ : ∃ asked, annotationRule.step o.toValue = .ok asked :=
    FieldRule.stepFrom_opens (opens_mark unknown) notNull
  cases asked with
  | none => exact ⟨_, Controller.evaluate_eq_ok_iff.2 (.inl ⟨step, rfl⟩)⟩
  | some op =>
    obtain ⟨_, _, applied, _⟩ := FieldRule.apply_step step
    exact ⟨_, Controller.evaluate_eq_ok_iff.2 (.inr ⟨op, _, step, applied, rfl⟩)⟩

/-- Validation looks at the specification only. -/
theorem validate_congr {a b : Object} (h : a.spec = b.spec) : validate a = validate b := by
  simp only [validate, Object.specAs, h]

end Noop

/-- A document stays readable when its mark is set, with the same specification. -/
theorem Object.spec_fill_annotation {d : Json} {o : Object} (ordered : d.Ordered)
    (h : ofValue d = .ok o) (key text : String) :
    ∃ next, ofValue (fillAt (.string text) ["metadata", "annotations", key] d) = .ok next ∧
      next.spec = o.spec := by
  obtain ⟨next, read⟩ := ofValue_fill_annotation ordered h key text
  refine ⟨next, read, ?_⟩
  obtain ⟨members, rfl⟩ := object_of_ofValue h
  have before := spec_of_fills ordered.sorted ((ofValue_eq_ok_iff ordered.sorted).1 h)
  have sorted := ordered.sorted.insert "metadata"
    (fillAt (.string text) ["annotations", key] (memberOrNull "metadata" members))
  have after := spec_of_fills sorted ((ofValue_eq_ok_iff sorted).1 read)
  have beside : ("spec" : String) ≠ "metadata" := by decide
  rw [memberOrNull, Entries.find?_insert_of_ne beside] at after
  exact Except.ok.inj (after.symm.trans before)

namespace Controller

/-! ## Both hooks on one request -/

/-- The answer of validation to a request. -/
def validateRequest (c : Controller) (request : Json) : Except Fault AdmissionResponse := do
  c.answerValidate (← (Payload.ofJson request).mapError .decode)

/-- The answer of mutation to a request. -/
def mutateRequest (c : Controller) (request : Json) : Except Fault AdmissionResponse := do
  c.answerMutate (← (Payload.ofJson request).mapError .decode)

/-- Validation completes and allows the request. -/
def Admits (c : Controller) (request : Json) : Prop :=
  ∃ response, c.validateRequest request = .ok response ∧ response.allowed = true

section
variable {c : Controller} {request : Json} (ordered : request.Ordered)
include ordered

theorem admits_iff : c.Admits request ↔ ∃ d o, AdmissionRequest.document? request = some d ∧
    Object.ofValue d = .ok o ∧ c.validate o = .ok .allow := by
  simp only [Admits, validateRequest, answerValidate, bind_eq_ok, mapError_eq_ok, map_eq_ok,
    AdmissionRequest.ofJson_eq_ok_iff ordered, Object.ofValue]
  constructor
  · rintro ⟨_, ⟨r, ⟨d, carried, read⟩, verdict, decided, rfl⟩, allowed⟩
    obtain rfl := AdmissionResponse.allowed_ofVerdict.1 allowed
    exact ⟨d, r.object, carried, read, decided⟩
  · rintro ⟨d, o, carried, read, decided⟩
    exact ⟨_, ⟨⟨o⟩, ⟨d, carried, read⟩, .allow, decided, rfl⟩, rfl⟩

theorem mutateRequest_eq_ok_iff {d : Json} (carried : AdmissionRequest.document? request = some d)
    {response : AdmissionResponse} :
    c.mutateRequest request = .ok response ↔ c.mutateDocument d = .ok response := by
  simp only [mutateRequest, mutateDocument, request_ofJson, answerMutate, bind_eq_ok,
    mapError_eq_ok, map_eq_ok, AdmissionRequest.ofJson_eq_ok_iff ordered, carried]
  constructor
  · rintro ⟨r, ⟨e, same, read⟩, answered⟩
    obtain rfl := Option.some.inj same
    exact ⟨_, ⟨_, read, rfl⟩, answered⟩
  · rintro ⟨_, ⟨o, read, rfl⟩, answered⟩
    exact ⟨⟨o⟩, ⟨d, rfl, read⟩, answered⟩

end

/-- The specification gives its fields by position. -/
def HasPositionalSpec (d : Json) : Prop := ∃ items, d.get? "spec" = some (.array items)

theorem mutateRequest_of_read {c : Controller} {request d : Json} {o : Object}
    (ordered : request.Ordered) (carried : AdmissionRequest.document? request = some d)
    (read : Object.ofValue d = .ok o) :
    c.mutateRequest request = (c.mutate o).map .ofMutation := by
  have whole : Payload.ofJson request = .ok (⟨o⟩ : AdmissionRequest) :=
    (AdmissionRequest.ofJson_eq_ok_iff ordered).2 ⟨d, carried, mapError_eq_ok.1 read⟩
  simp only [mutateRequest, whole, ok_mapError, ok_bind, answerMutate]

/-- An allowed container set needs no change, or has a specification that is no object. -/
theorem mutate_of_allow {members : List (String × Json)} {o : Object}
    (ordered : (Json.object members).Ordered) (read : Object.ofValue (.object members) = .ok o)
    (allowed : ContainerSet.validate o = .ok .allow) :
    (HasPositionalSpec (.object members) ∧
        ContainerSet.mutate o = .error (.invalidField "spec" "not an object")) ∨
      (¬ HasPositionalSpec (.object members) ∧ ContainerSet.mutate o = .ok .unchanged) := by
  have fills := (Object.ofValue_eq_ok_iff ordered.sorted).1 read
  have unknown := Object.extra_unknown fills
  obtain ⟨v, stands, spec, typed, n, given, nonzero⟩ := ContainerSet.replicas_of_allow allowed
  have kept : memberOrNull "spec" members = v := by rw [Object.spec_kept ordered fills, stands]; rfl
  have shown (notNull : v ≠ .null) : (Json.object members).get? "spec" = some v :=
    FieldRule.find?_of_memberOrNull kept notNull
  cases v with
  | object inside =>
    have sorted := (kept ▸ Json.ordered_memberOrNull ordered "spec").sorted
    have quiet := ContainerSet.step_of_members unknown sorted stands typed given nonzero
    refine .inr ⟨?_, evaluate_eq_ok_iff.2 (.inl ⟨quiet, rfl⟩)⟩
    rintro ⟨items, array⟩
    rw [shown (by simp)] at array
    cases array
  | array items =>
    have refused := ContainerSet.step_of_items unknown stands
    refine .inl ⟨⟨items, shown (by simp)⟩, ?_⟩
    simp [ContainerSet.mutate, Defaults.evaluate, Defaults.advance, refused]
  | null | bool | number | string => cases typed

/-- What becomes of an allowed document when a noop object is marked is allowed again. -/
theorem admits_marked {request d : Json} {o : Object} (ordered : request.Ordered)
    (carried : AdmissionRequest.document? request = some d) (read : Object.ofValue d = .ok o)
    (allowed : Noop.validate o = .ok .allow) :
    Noop.controller.Admits (AdmissionRequest.withDocument
      (fillAt (.string "true") Noop.annotationRule.path d) request) := by
  have inner := AdmissionRequest.ordered_document ordered carried
  obtain ⟨next, again, same⟩ := Object.spec_fill_annotation inner read Noop.annotation "true"
  have filled : (fillAt (.string "true") Noop.annotationRule.path d).Ordered :=
    Json.ordered_fillAt (.string _) inner
  refine (admits_iff (AdmissionRequest.ordered_withDocument ordered filled)).2
    ⟨_, next, AdmissionRequest.document?_withDocument carried _, again, ?_⟩
  exact (Noop.validate_congr same).trans allowed

/-- **Validation and mutation agree.** When validation of a registered controller allows a request,
mutation answers the same request, and the document that its patch makes is allowed again, or the
document itself when there is no patch. A container set needs none; but it refuses a specification
that is an array, which validation takes for the fields by position. -/
theorem mutate_after_validate {c : Controller} (registered : c ∈ all) {request : Json}
    (ordered : request.Ordered) (admitted : c.Admits request) :
    ∃ d, AdmissionRequest.document? request = some d ∧
      (c = ContainerSet.controller ∧ HasPositionalSpec d →
        c.mutateRequest request = .error (.invalidField "spec" "not an object")) ∧
      (¬ (c = ContainerSet.controller ∧ HasPositionalSpec d) →
        ∃ response, c.mutateRequest request = .ok response ∧
          (c = ContainerSet.controller → response.patch = none) ∧
          (response.patch = none ∨ ∃ patch after, response.decodedPatch = .ok (some patch) ∧
            patch.apply d = .ok after ∧
            c.Admits (AdmissionRequest.withDocument after request))) := by
  obtain ⟨d, o, carried, read, allowed⟩ := (admits_iff ordered).1 admitted
  have inner := AdmissionRequest.ordered_document ordered carried
  have answer {c : Controller} : c.mutateRequest request = (c.mutate o).map .ofMutation :=
    mutateRequest_of_read ordered carried read
  obtain ⟨members, rfl⟩ := Object.object_of_ofValue read
  refine ⟨_, carried, ?_⟩
  rcases mem_all_iff.1 registered with rfl | rfl
  · rcases mutate_of_allow inner read allowed with ⟨positional, refused⟩ | ⟨named, quiet⟩
    · have fault : ContainerSet.controller.mutateRequest request =
          .error (.invalidField "spec" "not an object") := by
        rw [answer]
        exact congrArg (Except.map _) refused
      exact ⟨fun _ => fault, fun h => absurd ⟨rfl, positional⟩ h⟩
    · have response : ContainerSet.controller.mutateRequest request =
          .ok (.ofMutation .unchanged) := by
        rw [answer]
        exact congrArg (Except.map _) quiet
      exact ⟨fun h => absurd h.2 named, fun _ => ⟨_, response, fun _ => rfl, .inl rfl⟩⟩
  · refine ⟨fun h => absurd h.1 noop_ne_containerSet, fun _ => ?_⟩
    have unknown := Object.extra_unknown ((Object.ofValue_eq_ok_iff inner.sorted).1 read)
    obtain ⟨mutation, decided⟩ := Noop.mutate_ok unknown
    have response : Noop.controller.mutateRequest request = .ok (.ofMutation mutation) := by
      rw [answer]
      exact congrArg (Except.map _) decided
    refine ⟨_, response, fun h => absurd h noop_ne_containerSet, ?_⟩
    have single := (mutateRequest_eq_ok_iff ordered carried).1 response
    refine (mutateDocument_of_rule fixes_mark inner single).imp_right ?_
    rintro ⟨patch, decoded, applied, _⟩
    exact ⟨patch, _, decoded, applied, admits_marked ordered carried read allowed⟩

/-- A request to write an object with this specification only. -/
def requestOf (spec : Json) : Json := .object [("object", .object [("spec", spec)])]

theorem requestOf_ordered {spec : Json} (ordered : spec.Ordered) : (requestOf spec).Ordered := by
  have object : (Json.object [("spec", spec)]).Ordered :=
    .object (by simp [Entries.Sorted]) (by simpa using ordered)
  exact .object (by simp [Entries.Sorted]) (by simpa using object)

/-- A noop object without metadata is allowed and marked, and is allowed with its mark. -/
theorem mutate_after_validate_of_unmarked_object :
    let request := requestOf (.object [("data", .string "x")])
    Noop.controller ∈ all ∧ request.Ordered ∧ Noop.controller.Admits request ∧
      ∃ d response patch after, AdmissionRequest.document? request = some d ∧
        Noop.controller.mutateRequest request = .ok response ∧
        response.decodedPatch = .ok (some patch) ∧ patch.apply d = .ok after ∧
        Noop.controller.Admits (AdmissionRequest.withDocument after request) := by
  intro request
  have registered : Noop.controller ∈ all := mem_all_iff.2 (.inr rfl)
  have inside : (Json.object [("data", .string "x")]).Ordered :=
    .object (by simp [Entries.Sorted]) (by simpa using Json.Ordered.string "x")
  have ordered : request.Ordered := requestOf_ordered inside
  have admitted : Noop.controller.Admits request := ⟨_, rfl, rfl⟩
  obtain ⟨d, carried, _, answers⟩ := mutate_after_validate registered ordered admitted
  obtain rfl : Json.object [("spec", .object [("data", .string "x")])] = d :=
    Option.some.inj carried
  have named : ¬ (Noop.controller = ContainerSet.controller ∧
      HasPositionalSpec (.object [("spec", .object [("data", .string "x")])])) := by
    rintro ⟨_, _, array⟩
    cases array
  obtain ⟨response, answered, _, unchanged | ⟨patch, after, decoded, applied, again⟩⟩ :=
    answers named
  · have marked : Noop.controller.mutateRequest request = .ok (.ofMutation (.patch
        [.add ⟨["metadata"]⟩ (.object [("annotations", .object [("noop", .string "true")])])])) :=
      rfl
    obtain rfl := Except.ok.inj (marked.symm.trans answered)
    cases unchanged
  · exact ⟨registered, ordered, admitted, _, response, patch, after, carried, answered, decoded,
      applied, again⟩

/-- A specification by position is allowed, and then not mutated. -/
theorem positional_spec_is_allowed_and_not_mutated :
    let request := requestOf (.array [.ofInt 3, .string "nginx"])
    request.Ordered ∧ ContainerSet.controller.Admits request ∧
      ¬ ∃ response, ContainerSet.controller.mutateRequest request = .ok response := by
  intro request
  have items : (Json.array [.ofInt 3, .string "nginx"]).Ordered :=
    .array (by simpa using ⟨Json.Ordered.number _, Json.Ordered.string _⟩)
  have refused : ContainerSet.controller.mutateRequest request =
      .error (.invalidField "spec" "not an object") := rfl
  refine ⟨requestOf_ordered items, ⟨_, rfl, rfl⟩, ?_⟩
  rintro ⟨response, answered⟩
  rw [refused] at answered
  cases answered

end Controller

end ControllerHooks
