import ControllerHooks.Proofs.Admission.Agreement
import ControllerHooks.Proofs.Codec.NormalForm
import ControllerHooks.Proofs.Controllers.Requests

/-!
# Answers of the admission hooks

An answer has room for much that makes no sense: a patch without its type, a denial without a
reason or with a patch. The hooks answer nothing of the kind.

* `AdmissionResponse.check_eq_ok_iff`: what the check of an answer accepts.
* `AdmissionResponse.TellsVerdict` and `AdmissionResponse.TellsMutation`: an answer from which the
  decision can be read.
* `Controller.answers_tell_the_decision`: what is decoded from the bytes of a hook is such an
  answer.
-/

namespace ControllerHooks

/-- Rules that all have a message never deny without a reason. -/
theorem Rules.reason_of_deny {α : Type} {rules : List (Rule α)} {subject : α} {reason : String}
    (spoken : ∀ rule ∈ rules, rule.message ≠ "") (h : evaluate rules subject = .deny reason) :
    reason ≠ "" := by
  unfold evaluate at h
  split at h
  · rename_i rule found
    obtain rfl : rule.message = reason := by simpa using h
    exact spoken rule (List.mem_of_find?_eq_some found)
  · cases h

namespace AdmissionResponse

/-- A patch comes with its type, and a denial with a reason and without a patch. -/
structure Consistent (r : AdmissionResponse) : Prop where
  patchType : r.patch.isSome = r.patchType.isSome
  denied : r.allowed = false → r.patch = none ∧ ∃ reason, r.reason = some reason ∧ reason ≠ ""

theorem check_eq_ok_iff {r : AdmissionResponse} : r.check = .ok () ↔ r.Consistent := by
  have consistent : r.Consistent ↔ r.patch.isSome = r.patchType.isSome ∧ (r.allowed = false →
      r.patch = none ∧ ∃ reason, r.reason = some reason ∧ reason ≠ "") :=
    ⟨fun h => ⟨h.patchType, h.denied⟩, fun ⟨patchType, denied⟩ => ⟨patchType, denied⟩⟩
  rw [consistent]
  by_cases typed : r.patch.isSome = r.patchType.isSome
  · cases allowed : r.allowed with
    | true => simp [check, typed, allowed]
    | false =>
      cases given : r.reason with
      | none => simp [check, typed, allowed, given]
      | some reason =>
        by_cases empty : reason = ""
        · simp [check, typed, allowed, given, empty]
        · -- The type is known by the patch; a rewrite the other way would hide it.
          cases patch : r.patch <;> simp [check, ← typed, patch, allowed, given, empty]
  · simp [check, typed]

/-- An answer that tells a verdict: a denial by its reason, and nothing is patched. -/
structure TellsVerdict (r : AdmissionResponse) (verdict : Verdict) : Prop where
  checked : r.check = .ok ()
  patch : r.patch = none
  patchType : r.patchType = none
  allowed : r.allowed = true ↔ verdict = .allow
  reason : ∃ reason, r.reason = some reason ∧ (reason = "" ↔ r.allowed = true) ∧
    ∀ why, verdict = .deny why → reason = why

/-- An answer that tells a mutation: it allows, and its patch, if it has one, can be decoded to the
operations of the mutation, of which there is at least one. -/
structure TellsMutation (r : AdmissionResponse) (mutation : Mutation) : Prop where
  checked : r.check = .ok ()
  allowed : r.allowed = true
  status : r.status = none
  patchType : r.patchType.isSome = r.patch.isSome
  operations : ∀ encoded, r.patch = some encoded → ∃ op rest, encoded.decode = .ok (op :: rest)
  unchanged : r.decodedPatch = .ok none ↔ mutation = .unchanged
  patched : ∀ patch, r.decodedPatch = .ok (some patch) ↔ mutation = .patch patch

theorem tellsVerdict_ofVerdict {verdict : Verdict}
    (reasoned : ∀ why, verdict = .deny why → why ≠ "") :
    (ofVerdict verdict).TellsVerdict verdict := by
  cases verdict with
  | allow =>
    exact {
      checked := rfl
      patch := rfl
      patchType := rfl
      allowed := by simp [ofVerdict]
      reason := ⟨"", rfl, by simp [ofVerdict], by simp⟩ }
  | deny why =>
    have nonempty := reasoned why rfl
    exact {
      checked := check_eq_ok_iff.2 ⟨rfl, fun _ => ⟨rfl, why, rfl, nonempty⟩⟩
      patch := rfl
      patchType := rfl
      allowed := by simp [ofVerdict]
      reason := ⟨why, rfl, by simpa [ofVerdict] using nonempty, by simp⟩ }

theorem decode_of_decodedPatch {r : AdmissionResponse} {encoded : EncodedPatch} {patch : Patch}
    (carried : r.patch = some encoded) (decoded : r.decodedPatch = .ok (some patch)) :
    encoded.decode = .ok patch := by
  simpa [decodedPatch, carried, mapError_eq_ok, map_eq_ok] using decoded

theorem tellsMutation_ofMutation {mutation : Mutation}
    (decodes : ∀ patch, mutation = .patch patch →
      patch ≠ [] ∧ (ofMutation mutation).decodedPatch = .ok (some patch)) :
    (ofMutation mutation).TellsMutation mutation := by
  cases mutation with
  | unchanged =>
    exact {
      checked := rfl
      allowed := rfl
      status := rfl
      patchType := rfl
      operations := by rintro _ ⟨⟩
      unchanged := by simp [ofMutation, decodedPatch]
      patched := by simp [ofMutation, decodedPatch] }
  | patch patch =>
    obtain ⟨something, decoded⟩ := decodes patch rfl
    obtain ⟨op, rest, rfl⟩ := List.exists_cons_of_ne_nil something
    exact {
      checked := rfl
      allowed := rfl
      status := rfl
      patchType := rfl
      operations := fun encoded carried => ⟨op, rest, decode_of_decodedPatch carried decoded⟩
      unchanged := by simp [decoded]
      patched := by simp [decoded] }

end AdmissionResponse

namespace Controller

variable {c : Controller} {o : Object} {request response : Bytes}

theorem reason_of_validate (registered : c ∈ all) {why : String}
    (decided : c.validate o = .ok (.deny why)) : why ≠ "" := by
  rcases mem_all_iff.1 registered with rfl | rfl
  · simp only [ContainerSet.controller, ContainerSet.validate, bind_eq_ok, pure_eq_ok_value,
      Except.ok.injEq] at decided
    obtain ⟨_, _, denied⟩ := decided
    exact Rules.reason_of_deny (by decide) denied
  · simp only [Noop.controller, Noop.validate, bind_eq_ok, pure_eq_ok_value,
      Except.ok.injEq] at decided
    obtain ⟨_, _, denied⟩ := decided
    exact Rules.reason_of_deny (by decide) denied

theorem decodedPatch_of_mutate (registered : c ∈ all) {patch : Patch}
    (decided : c.mutate o = .ok (.patch patch)) :
    patch ≠ [] ∧ (AdmissionResponse.ofMutation (.patch patch)).decodedPatch = .ok (some patch) := by
  obtain ⟨rule, value, fixes⟩ : ∃ rule value, Fixes c rule value := by
    rcases mem_all_iff.1 registered with rfl | rfl
    · exact ⟨_, _, fixes_replicas⟩
    · exact ⟨_, _, fixes_mark⟩
  rw [fixes.mutate] at decided
  rcases evaluate_eq_ok_iff.1 decided with ⟨_, same⟩ | ⟨op, _, asked, _, same⟩
  · cases same
  · cases same
    exact ⟨by simp, decodedPatch_of_step fixes asked⟩

theorem invoke_validate_eq_ok_iff :
    c.invoke .validate request = .ok response ↔ ∃ (r : AdmissionRequest) (verdict : Verdict),
      Payload.decode request = .ok r ∧ c.validate r.object = .ok verdict ∧
        response = Payload.encode (AdmissionResponse.ofVerdict verdict) := by
  simp only [invoke, answerValidate, bind_eq_ok, map_eq_ok, Payload.request, mapError_eq_ok,
    pure_eq_ok_value, Except.ok.injEq]
  constructor
  · rintro ⟨r, read, _, ⟨verdict, decided, rfl⟩, rfl⟩
    exact ⟨r, verdict, read, decided, rfl⟩
  · rintro ⟨r, verdict, read, decided, rfl⟩
    exact ⟨r, read, _, ⟨verdict, decided, rfl⟩, rfl⟩

theorem invoke_mutate_eq_ok_iff :
    c.invoke .mutate request = .ok response ↔ ∃ (r : AdmissionRequest) (mutation : Mutation),
      Payload.decode request = .ok r ∧ c.mutate r.object = .ok mutation ∧
        response = Payload.encode (AdmissionResponse.ofMutation mutation) := by
  simp only [invoke, answerMutate, bind_eq_ok, map_eq_ok, Payload.request, mapError_eq_ok,
    pure_eq_ok_value, Except.ok.injEq]
  constructor
  · rintro ⟨r, read, _, ⟨mutation, decided, rfl⟩, rfl⟩
    exact ⟨r, mutation, read, decided, rfl⟩
  · rintro ⟨r, mutation, read, decided, rfl⟩
    exact ⟨r, read, _, ⟨mutation, decided, rfl⟩, rfl⟩

/-- **Answers tell the decision.** Where an admission hook of a registered controller completes, its
bytes can be decoded, and the answer that they hold passes the check and tells what the controller
decided of the object in the request. -/
theorem answers_tell_the_decision (registered : c ∈ all) (request : Bytes) :
    (∀ response, c.invoke .validate request = .ok response →
      ∃ (r : AdmissionRequest) (verdict : Verdict) (answer : AdmissionResponse),
        Payload.decode request = .ok r ∧ c.validate r.object = .ok verdict ∧
        Payload.decode response = .ok answer ∧ answer.TellsVerdict verdict) ∧
    ∀ response, c.invoke .mutate request = .ok response →
      ∃ (r : AdmissionRequest) (mutation : Mutation) (answer : AdmissionResponse),
        Payload.decode request = .ok r ∧ c.mutate r.object = .ok mutation ∧
        Payload.decode response = .ok answer ∧ answer.TellsMutation mutation := by
  constructor
  · intro response answered
    obtain ⟨r, verdict, read, decided, rfl⟩ := invoke_validate_eq_ok_iff.1 answered
    have reasoned : ∀ why, verdict = .deny why → why ≠ "" := by
      rintro why rfl
      exact reason_of_validate registered decided
    exact ⟨r, verdict, _, read, decided, AdmissionResponse.decode_encode _,
      AdmissionResponse.tellsVerdict_ofVerdict reasoned⟩
  · intro response answered
    obtain ⟨r, mutation, read, decided, rfl⟩ := invoke_mutate_eq_ok_iff.1 answered
    have decodes : ∀ patch, mutation = .patch patch → patch ≠ [] ∧
        (AdmissionResponse.ofMutation mutation).decodedPatch = .ok (some patch) := by
      rintro patch rfl
      exact decodedPatch_of_mutate registered decided
    exact ⟨r, mutation, _, read, decided, AdmissionResponse.decode_encode _,
      AdmissionResponse.tellsMutation_ofMutation decodes⟩

/-- An empty object is denied for want of a specification, and is marked. -/
theorem answers_tell_the_decision_of_empty_object :
    let request := emptyObjectRequest.bytes
    Noop.controller ∈ all ∧
    (∃ response answer, Noop.controller.invoke .validate request = .ok response ∧
      Payload.decode response = .ok answer ∧ AdmissionResponse.check answer = .ok () ∧
      answer.allowed = false ∧ answer.reason = some "'spec' is empty") ∧
    ∃ response answer, Noop.controller.invoke .mutate request = .ok response ∧
      Payload.decode response = .ok answer ∧ AdmissionResponse.check answer = .ok () ∧
      answer.allowed = true ∧ answer.decodedPatch = .ok (some [.add ⟨["metadata"]⟩
        (.object [("annotations", .object [("noop", .string "true")])])]) := by
  intro request
  have registered : Noop.controller ∈ all := mem_all_iff.2 (.inr rfl)
  have validated : Noop.controller.validate .blank = .ok (.deny "'spec' is empty") := rfl
  have mutated : Noop.controller.mutate .blank = .ok (.patch [.add ⟨["metadata"]⟩
      (.object [("annotations", .object [("noop", .string "true")])])]) := rfl
  obtain ⟨verdicts, mutations⟩ := answers_tell_the_decision registered request
  refine ⟨registered, ?_, ?_⟩
  · have answered := invoke_validate_eq_ok_iff.2 ⟨_, _, decode_emptyObjectRequest, validated, rfl⟩
    obtain ⟨r, verdict, answer, read, decided, decoded, tells⟩ := verdicts _ answered
    obtain rfl := Except.ok.inj (decode_emptyObjectRequest.symm.trans read)
    obtain rfl := Except.ok.inj (validated.symm.trans decided)
    obtain ⟨reason, given, _, why⟩ := tells.reason
    refine ⟨_, answer, answered, decoded, tells.checked, ?_, given.trans ?_⟩
    · simpa using tells.allowed
    · rw [why _ rfl]
  · have answered := invoke_mutate_eq_ok_iff.2 ⟨_, _, decode_emptyObjectRequest, mutated, rfl⟩
    obtain ⟨r, mutation, answer, read, decided, decoded, tells⟩ := mutations _ answered
    obtain rfl := Except.ok.inj (decode_emptyObjectRequest.symm.trans read)
    obtain rfl := Except.ok.inj (mutated.symm.trans decided)
    exact ⟨_, answer, answered, decoded, tells.checked, tells.allowed, (tells.patched _).2 rfl⟩

end Controller

end ControllerHooks
