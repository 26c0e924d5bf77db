import ControllerHooks.Proofs.Admission.Agreement

/-!
# From admission to the Deployment

A container set is mutated and validated as a document, and reconciled as an object. The document
that mutation leaves has a number of replicas; once validation allows it, the first pass over it
creates the Deployment that it describes.

* `Controller.mutated_is_settled`: what becomes of a document is read as an object, and its rule
  asks for nothing there.
* `ContainerSet.validate_of_settled`: such a document is at most denied for its image.
* `ContainerSet.reconcile_unobserved`: without an observed Deployment, a pass creates one.
* `ContainerSet.mutated_is_deployed` puts the three hooks together.
-/

namespace ControllerHooks

open Record (Fills)
open Json (memberOrNull fillAt)

/-- What a client makes of a document when it applies the answer: the patched document, or the
document itself when the answer has no patch. -/
def AdmissionResponse.Makes (response : AdmissionResponse) (before after : Json) : Prop :=
  response.decodedPatch = .ok none ∧ after = before ∨
    ∃ patch, response.decodedPatch = .ok (some patch) ∧ patch.apply before = .ok after

/-- An answer makes one thing of a document. -/
theorem AdmissionResponse.Makes.unique {response : AdmissionResponse} {before first second : Json}
    (h₁ : response.Makes before first) (h₂ : response.Makes before second) : first = second := by
  rcases h₁ with ⟨none, rfl⟩ | ⟨patch, decoded, applied⟩
  · rcases h₂ with ⟨_, rfl⟩ | ⟨_, some, _⟩
    · rfl
    · rw [none] at some
      cases some
  · rcases h₂ with ⟨none, _⟩ | ⟨_, decoded', applied'⟩
    · rw [decoded] at none
      cases none
    · obtain rfl := Option.some.inj (Except.ok.inj (decoded.symm.trans decoded'))
      exact Except.ok.inj (applied.symm.trans applied')

/-- What becomes of a document can be read as an object, and its rule asks for nothing there. -/
theorem Controller.mutated_is_settled {c : Controller} {rule : FieldRule} {value d : Json}
    (fixes : Fixes c rule value) (ordered : d.Ordered) {response : AdmissionResponse}
    (answered : c.mutateDocument d = .ok response) :
    ∃ after, response.Makes d after ∧ after.Ordered ∧ (∃ o, Object.ofValue after = .ok o) ∧
      rule.step after = .ok none := by
  obtain ⟨o, mutation, read, decided, same⟩ := mutateDocument_eq_ok_iff.1 answered
  rw [fixes.mutate] at decided
  rcases evaluate_eq_ok_iff.1 decided with ⟨quiet, rfl⟩ | ⟨op, _, _, _, rfl⟩
  · have step : rule.step d = .ok none :=
      (FieldRule.stepFrom_congr (fixes.agree ordered read)).trans quiet
    exact ⟨d, .inl ⟨by rw [same]; rfl, rfl⟩, ordered, ⟨o, read⟩, step⟩
  · rcases mutateDocument_of_rule fixes ordered answered with none | ⟨patch, decoded, applied, _⟩
    · rw [same] at none
      cases none
    · exact ⟨_, .inr ⟨patch, decoded, applied⟩, Json.ordered_fillAt fixes.ordered ordered,
        fixes.readable ordered read,
        FieldRule.stepFrom_fillAt fixes.notNull fixes.accepts [] rule.path d⟩

/-! ## The envelope of a document -/

namespace Object

variable {members : List (String × Json)} {o : Object} {text : String}

/-- What stands below `metadata` is what the metadata are read from. -/
theorem metadata_of_at? (ordered : (Json.object members).Ordered)
    (fills : Fills fields keepExtra blank (Doc.ofMembers .memory members) o) {token : String}
    (here : (Json.object members).at? ["metadata", token] = some (.string text)) :
    ∃ inside m, (Json.object inside).Ordered ∧ memberOrNull token inside = .string text ∧
      Fills Metadata.fields Record.ignore .blank (Doc.ofMembers .memory inside) m ∧
      o.metadata = some m := by
  rw [Json.at?_object, Json.bind_at? (by simp)] at here
  rcases metadata_inside ordered fills with ⟨null, _⟩ | ⟨inside, m, value, inner, read, some⟩
  · rw [null] at here
    cases here
  · rw [value, Json.at?_member] at here
    have stands : memberOrNull token inside = .string text := by
      rw [memberOrNull, here]
      rfl
    exact ⟨inside, m, inner, stands, read, some⟩

theorem name_of_at? (ordered : (Json.object members).Ordered)
    (read : ofValue (.object members) = .ok o)
    (here : (Json.object members).at? ["metadata", "name"] = some (.string text)) :
    o.name = some text := by
  have fills := (ofValue_eq_ok_iff ordered.sorted).1 read
  obtain ⟨inside, m, sorted, stands, fills, some⟩ := metadata_of_at? ordered fills here
  have name : Reader.optional Reader.string (Doc.ofJson .memory (memberOrNull "name" inside)) =
      .ok m.name := by
    refine fills.get_optional sorted.sorted.keys_nodup rfl (fun _ _ => rfl) rfl ?_
      Record.ignore_keeps
    simp [Metadata.fields, Field.optional, Field.keeps_set]
  rw [stands] at name
  rw [Object.name, some]
  exact (Except.ok.inj name).symm

theorem inNamespace_of_at? (ordered : (Json.object members).Ordered)
    (read : ofValue (.object members) = .ok o)
    (here : (Json.object members).at? ["metadata", "namespace"] = some (.string text)) :
    o.inNamespace = some text := by
  have fills := (ofValue_eq_ok_iff ordered.sorted).1 read
  obtain ⟨inside, m, sorted, stands, fills, some⟩ := metadata_of_at? ordered fills here
  have place : Reader.optional Reader.string
      (Doc.ofJson .memory (memberOrNull "namespace" inside)) = .ok m.inNamespace := by
    refine fills.get_optional sorted.sorted.keys_nodup rfl (fun _ _ => rfl) rfl ?_
      Record.ignore_keeps
    simp [Metadata.fields, Field.optional, Field.keeps_set]
  rw [stands] at place
  rw [Object.inNamespace, some]
  exact (Except.ok.inj place).symm

/-- A status that is absent, null or an object can be written to. -/
theorem insertStatus_ok (ordered : (Json.object members).Ordered)
    (read : ofValue (.object members) = .ok o)
    (opens : memberOrNull "status" members = .null ∨
      ∃ inside, memberOrNull "status" members = .object inside) (field : String) (value : Json) :
    ∃ written, o.insertStatus field value = .ok written := by
  have fills := (ofValue_eq_ok_iff ordered.sorted).1 read
  have status := status_of_fills ordered.sorted fills
  have inside := Json.ordered_memberOrNull ordered "status"
  rcases opens with null | ⟨entries, object⟩
  · rw [null] at status
    have none : o.status = none := (Except.ok.inj status).symm
    exact exists_insertStatus_iff.2 (.inl none)
  · rw [object] at status inside
    rw [Reader.optional_ofJson (by simp) (Reader.json_ofJson inside _)] at status
    have some : o.status = some (.object entries) := (Except.ok.inj status).symm
    exact exists_insertStatus_iff.2 (.inr ⟨entries, some⟩)

end Object

namespace ContainerSet

/-! ## Validation of what mutation leaves -/

/-- Where the rule asks for nothing, a number of replicas stands. -/
theorem replicas_of_settled {members : List (String × Json)}
    (quiet : replicasRule.step (.object members) = .ok none) :
    ∃ inside, memberOrNull "spec" members = .object inside ∧
      memberOrNull "replicas" inside ≠ .null ∧
      isZero (memberOrNull "replicas" inside) = false := by
  have asked : FieldRule.stepFrom replicasRule [] ["spec", "replicas"] (.object members) =
      .ok none := quiet
  rw [FieldRule.stepFrom_cons] at asked
  split at asked
  · cases asked
  · cases spec : memberOrNull "spec" members with
    | object inside =>
      rw [spec, FieldRule.stepFrom_cons] at asked
      split at asked
      · cases asked
      · rename_i present
        refine ⟨inside, rfl, mt FieldRule.isNull_eq_true.2 present, ?_⟩
        simpa [FieldRule.stepFrom, replicasRule] using asked
    | null | bool | number | string | array =>
      rw [spec] at asked
      cases asked

/-- The typed view of such a specification has that number, which is not zero. -/
theorem view_of_settled {inside : List (String × Json)} {spec : ContainerSetSpec}
    (sorted : Entries.Sorted inside)
    (read : Payload.read (Doc.ofJson .memory (.object inside)) = .ok spec)
    (given : memberOrNull "replicas" inside ≠ .null)
    (nonzero : isZero (memberOrNull "replicas" inside) = false) :
    ∃ n, spec.replicas = some n ∧ n ≠ 0 ∧ memberOrNull "replicas" inside = .ofInt n.toInt := by
  rcases Reader.of_optional (ContainerSetSpec.replicas_of_read sorted read) with
    ⟨null, _⟩ | ⟨_, n, number, some⟩
  · exact absurd (Doc.ofJson_eq_null_iff.1 null) given
  · have value := Reader.int32_eq_ok number
    refine ⟨n, some, ?_, value⟩
    rintro rfl
    rw [value] at nonzero
    cases nonzero

theorem image_of_read {inside : List (String × Json)} {spec : ContainerSetSpec}
    (sorted : Entries.Sorted inside)
    (read : Payload.read (Doc.ofJson .memory (.object inside)) = .ok spec) {image : String}
    (given : spec.image = some image) : Entries.find? "image" inside = some (.string image) := by
  have fills := (Record.fills_of_ofMembers read).1
  have view : Reader.optional Reader.string (Doc.ofJson .memory (memberOrNull "image" inside)) =
      .ok spec.image := by
    refine fills.get_optional sorted.keys_nodup rfl (fun _ _ => rfl) rfl ?_ Record.ignore_keeps
    simp [Field.optional, Field.keeps_set]
  rw [given] at view
  rcases Reader.of_optional view with ⟨_, none⟩ | ⟨_, text, read, some⟩
  · cases none
  · obtain rfl := Option.some.inj some
    refine FieldRule.find?_of_memberOrNull ?_ (by simp)
    exact Doc.ofJson_eq_string_iff.1 (Reader.string_eq_ok_iff.1 read)

/-- The reasons for which a container set with a number of replicas is denied. -/
def imageReasons : List String := ["'spec.image' must be specified", "'spec.image' is empty"]

/-- With a number of replicas only the image can be denied. -/
theorem evaluate_of_replicas {spec : ContainerSetSpec} {n : Int32} (given : spec.replicas = some n)
    (nonzero : n ≠ 0) : (∃ image, spec.image = some image ∧ Rules.evaluate rules spec = .allow) ∨
      ∃ reason ∈ imageReasons, Rules.evaluate rules spec = .deny reason := by
  cases image : spec.image with
  | none =>
    refine .inr ⟨_, List.mem_cons_self, ?_⟩
    simp [Rules.evaluate, rules, given, nonzero, image]
  | some text =>
    by_cases empty : text = ""
    · refine .inr ⟨_, List.mem_cons_of_mem _ List.mem_cons_self, ?_⟩
      simp [Rules.evaluate, rules, given, nonzero, image, empty]
    · exact .inl ⟨text, rfl, by simp [Rules.evaluate, rules, given, nonzero, image, empty]⟩

/-- What validation can say of an object whose document has a number of replicas: its specification
cannot be read, or its image is denied, or it is allowed, and then what a pass needs is known. -/
theorem validate_of_settled {members : List (String × Json)} {o : Object}
    (ordered : (Json.object members).Ordered) (read : Object.ofValue (.object members) = .ok o)
    (quiet : replicasRule.step (.object members) = .ok none) :
    (∃ message, validate o = .error (.invalidField "spec" message)) ∨
      (∃ reason ∈ imageReasons, validate o = .ok (.deny reason)) ∨
      (validate o = .ok .allow ∧ ∃ (v : Json) (spec : ContainerSetSpec) (n : Int32)
        (image : String), o.spec = some v ∧ Payload.read (Doc.ofJson .memory v) = .ok spec ∧
        spec.replicas = some n ∧ spec.image = some image ∧
        (Json.object members).at? ["spec", "replicas"] = some (.ofInt n.toInt) ∧
        (Json.object members).at? ["spec", "image"] = some (.string image)) := by
  obtain ⟨inside, stands, given, nonzero⟩ := replicas_of_settled quiet
  have fills := (Object.ofValue_eq_ok_iff ordered.sorted).1 read
  have sorted : Entries.Sorted inside := by
    have inner := Json.ordered_memberOrNull ordered "spec"
    rw [stands] at inner
    exact inner.sorted
  have spec : o.spec = some (.object inside) := by
    have kept := Object.spec_kept ordered fills
    rw [stands] at kept
    cases here : o.spec with
    | none => simp [here] at kept
    | some v => simp [here, kept]
  cases typed : (Payload.read (Doc.ofJson .memory (.object inside)) :
      Except DecodeError ContainerSetSpec) with
  | error e => exact .inl ⟨e.message, by simp [validate, Object.specAs, spec, typed]⟩
  | ok view =>
    obtain ⟨n, replicas, positive, number⟩ := view_of_settled sorted typed given nonzero
    have judged {verdict : Verdict} (h : Rules.evaluate rules view = verdict) :
        validate o = .ok verdict := by
      simp [validate, Object.specAs, spec, typed, h]
    have under (token : String) : (Json.object members).at? ["spec", token] =
        Entries.find? token inside := by
      rw [Json.at?_object, Json.bind_at? (by simp), stands, Json.at?_member]
    rcases evaluate_of_replicas replicas positive with
      ⟨image, imaged, allowed⟩ | ⟨reason, known, denied⟩
    · refine .inr (.inr ⟨judged allowed, _, view, n, image, spec, typed, replicas, imaged, ?_, ?_⟩)
      · rw [under, FieldRule.find?_of_memberOrNull number (by simp [Json.ofInt])]
      · rw [under, image_of_read sorted typed imaged]
    · exact .inr (.inl ⟨reason, known, judged denied⟩)

/-! ## The first pass -/

/-- No Deployment is observed: its key is missing, or has an empty list. -/
def Unobserved (deps : Dependents) : Prop :=
  deps = .empty ∨ deps = SortedMap.empty.insert deployments.key []

theorem Unobserved.insert {deps : Dependents} (h : Unobserved deps) (objects : List Object) :
    deps.insert deployments.key objects = SortedMap.empty.insert deployments.key objects := by
  rcases h with rfl | rfl
  · rfl
  · exact SortedMap.insert_over _ _ _ _

theorem Unobserved.permitted {deps : Dependents} (h : Unobserved deps) :
    deps.Permitted reconciler.dependents := by
  refine Dependents.permitted_singleton_iff.2 ?_
  rcases h with rfl | rfl
  · rintro _ ⟨⟩
  · exact List.forall_mem_singleton.2 ⟨rfl, fun _ => Nat.zero_le 1⟩

theorem Unobserved.objects {deps : Dependents} (h : Unobserved deps) :
    deps.objects deployments.key = [] := by
  rcases h with rfl | rfl
  · rfl
  · exact Dependents.objects_insert _ _ _

theorem deployment_key (d : Desired) : (deployment d).key = deployments.key := by
  have type : ResourceType.ofApiVersion deployments.apiVersion deployments.kind = deployments := by
    decide
  exact congrArg ResourceType.key type

/-- Where no Deployment is observed, a pass over a named parent creates one, and tells it. -/
theorem reconcile_unobserved {s : State} {d : Desired} {object : Object}
    (unobserved : Unobserved s.dependents) (asked : desired s.object = .ok d)
    (named : d.name ≠ "")
    (inserted : s.object.insertStatus "healthyReplicas" (.ofInt 0) = .ok object) :
    reconciler.reconcile s = .ok { s with
      object, dependents := SortedMap.empty.insert deployments.key [deployment d]
      events := [createdEvent] } := by
  have before := unobserved.permitted
  obtain ⟨_, inNamespace⟩ := identity_of_desired asked
  obtain ⟨_, _, same⟩ := Object.insertStatus_eq_ok_iff.1 inserted
  have ran := Pass.created (s := { s with events := [] }) asked unobserved.objects inserted
  refine Reconciler.reconcile_eq_ok_iff.2 ⟨before, _, body_eq_ok_iff.2 ran,
    (State.allows_insert_iff before rfl).2 ?_, ?_⟩
  · rw [same]
    exact ⟨⟨rfl, rfl, rfl, rfl⟩, deployment_key d, ⟨d.name, rfl, named⟩, inNamespace.symm⟩
  · rw [unobserved.insert]
    rfl

/-- **From admission to the Deployment.** When a client's document is mutated, validation never
denies for its replicas what the client makes of it: it allows, or denies for the image, or faults
on a specification that cannot be read. If it allows, and the document has a name, a namespace and
no status but an object, then the first pass over it completes and holds the one Deployment that
the document describes, with one event. Values in memory are ordered, as `ordered` says. -/
theorem mutated_is_deployed {d : Json} (ordered : d.Ordered) {response : AdmissionResponse}
    (answered : controller.mutateDocument d = .ok response) :
    ∃ after, response.Makes d after ∧
      let verdict := controller.validateRequest (.object [("object", after)])
      ((∃ message, verdict = .error (.invalidField "spec" message)) ∨
        (∃ reason ∈ imageReasons, verdict = .ok (.ofVerdict (.deny reason))) ∨
        verdict = .ok (.ofVerdict .allow)) ∧
      (verdict = .ok (.ofVerdict .allow) → ∀ name inNamespace,
        after.at? ["metadata", "name"] = some (.string name) → name ≠ "" →
        after.at? ["metadata", "namespace"] = some (.string inNamespace) →
        ((after.at? ["status"]).getD .null = .null ∨
          ∃ members, after.at? ["status"] = some (.object members)) →
        ∃ o, Object.ofValue after = .ok o ∧ ∀ s : State, s.object = o →
          Unobserved s.dependents → ∃ out deployed spec replicas image,
            reconciler.reconcile s = .ok out ∧
            out.dependents.entries = [(deployments.key, [deployed])] ∧
            deployed.apiVersion = "apps/v1" ∧ deployed.kind = "Deployment" ∧
            deployed.name = some name ∧ deployed.inNamespace = some inNamespace ∧
            deployed.spec = some spec ∧
            after.at? ["spec", "replicas"] = some replicas ∧
            spec.at? ["replicas"] = some replicas ∧
            after.at? ["spec", "image"] = some image ∧
            spec.at? ["template", "spec", "containers", "0", "image"] = some image ∧
            ∃ message, out.events = [.normal "CreateDeployment" message]) := by
  obtain ⟨after, makes, settled, ⟨o, read⟩, quiet⟩ :=
    Controller.mutated_is_settled Controller.fixes_replicas ordered answered
  obtain ⟨members, rfl⟩ := Object.object_of_ofValue read
  have request : (Json.object [("object", .object members)]).Ordered :=
    .object (by simp [Entries.Sorted]) (by simpa using settled)
  have whole : Payload.ofJson (.object [("object", .object members)]) =
      .ok (⟨o⟩ : AdmissionRequest) :=
    (AdmissionRequest.ofJson_eq_ok_iff request).2 ⟨_, rfl, mapError_eq_ok.1 read⟩
  have answer : controller.validateRequest (.object [("object", .object members)]) =
      (validate o).map .ofVerdict := by
    simp only [Controller.validateRequest, whole, ok_mapError, ok_bind]
    rfl
  refine ⟨_, makes, ?_⟩
  simp only [answer]
  rcases validate_of_settled settled read quiet with
    ⟨message, fault⟩ | ⟨reason, known, denied⟩ |
      ⟨allowed, v, spec, n, image, stands, typed, replicas, imaged, number, text⟩
  · simp [fault]
  · simp [denied, known, AdmissionResponse.ofVerdict]
  · refine ⟨.inr (.inr (by rw [allowed]; rfl)), ?_⟩
    intro _ name inNamespace named nonempty placed opens
    refine ⟨o, read, ?_⟩
    rintro s rfl unobserved
    have asked : desired s.object = .ok ⟨name, inNamespace, n, image⟩ :=
      desired_eq_ok_iff.2 ⟨Object.name_of_at? settled read named,
        Object.inNamespace_of_at? settled read placed, v, spec, stands, typed, replicas, imaged⟩
    have status : memberOrNull "status" members = .null ∨
        ∃ inside, memberOrNull "status" members = .object inside := by
      rw [Json.at?_member] at opens
      refine opens.imp_right ?_
      rintro ⟨inside, found⟩
      exact ⟨inside, by simp [memberOrNull, found]⟩
    obtain ⟨object, inserted⟩ :=
      Object.insertStatus_ok settled read status "healthyReplicas" (.ofInt 0)
    exact ⟨_, _, _, _, _, reconcile_unobserved unobserved asked nonempty inserted, rfl, rfl, rfl,
      rfl, rfl, rfl, number, rfl, text, rfl, _, rfl⟩

/-- A client's document that asks for no copies at all. -/
def scaledToZero : Json := .object
  [("metadata", .object [("name", .string "web"), ("namespace", .string "default")]),
    ("spec", .object [("image", .string "nginx"), ("replicas", .ofInt 0)])]

theorem scaledToZero_ordered : scaledToZero.Ordered := by
  have metadata :
      (Json.object [("name", .string "web"), ("namespace", .string "default")]).Ordered :=
    .object (by decide) (by simpa using ⟨.string _, .string _⟩)
  have spec : (Json.object [("image", .string "nginx"), ("replicas", .ofInt 0)]).Ordered :=
    .object (by decide) (by simpa using ⟨.string _, .number _⟩)
  exact .object (by decide) (by simpa using ⟨metadata, spec⟩)

/-- It is given one copy, is allowed, and has its Deployment created. -/
theorem mutated_is_deployed_with_one_copy :
    scaledToZero.Ordered ∧ ∃ response after o out deployed spec,
      controller.mutateDocument scaledToZero = .ok response ∧
      response.Makes scaledToZero after ∧ Object.ofValue after = .ok o ∧
      reconciler.reconcile { State.blank with object := o } = .ok out ∧
      out.dependents.entries = [(deployments.key, [deployed])] ∧
      deployed.name = some "web" ∧ deployed.spec = some spec ∧
      spec.at? ["replicas"] = some (.ofInt 1) := by
  have answered : controller.mutateDocument scaledToZero =
      .ok (.ofMutation (.patch [.replace ⟨["spec", "replicas"]⟩ (.ofInt 1)])) := rfl
  obtain ⟨after, makes, _, deploys⟩ := mutated_is_deployed scaledToZero_ordered answered
  -- The patch in the answer is encoded, so what it makes is taken from the rule.
  rcases Controller.mutateDocument_of_rule Controller.fixes_replicas scaledToZero_ordered
    answered with none | ⟨patch, decoded, applied, _⟩
  · cases none
  · obtain rfl := makes.unique (.inr ⟨patch, decoded, applied⟩)
    obtain ⟨o, read, passes⟩ := deploys rfl "web" "default" rfl (by decide) rfl (.inl rfl)
    obtain ⟨out, deployed, spec, replicas, _, pass, one, _, _, name, _, stands, asked, given, _⟩ :=
      passes { State.blank with object := o } rfl (.inl rfl)
    obtain rfl : Json.ofInt 1 = replicas := Option.some.inj asked
    exact ⟨scaledToZero_ordered, _, _, o, out, deployed, spec, answered, makes, read, pass, one,
      name, stands, given⟩

end ContainerSet

end ControllerHooks
