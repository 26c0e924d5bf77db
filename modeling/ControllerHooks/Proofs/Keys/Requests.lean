import ControllerHooks.Proofs.Codec.State
import ControllerHooks.Proofs.Controllers.Requests
import ControllerHooks.Proofs.Keys.Parts

/-!
# Keys in requests

The dependents and the references of a state are under keys of the grammar, and a request that
gives them under anything else is not decoded.

* `State.isKey_of_read`: the keys of a state that is read.
* `State.isKey_of_gives`: the keys that a document of a state may give.
* `ResourceKey.keys_follow_grammar`: what is a key, what it stands for, and where keys are met.
-/

namespace ControllerHooks

open ResourceKey (IsKey Spells)
open ResourceKey.Reading (isLetterOrDigit)

/-! ## Reading -/

theorem ResourceKey.parse_eq_ok_iff {text : String} {key : ResourceKey} :
    parse text = .ok key ↔ IsKey text ∧ key.text = text := by
  rw [← isWellFormed_iff]
  unfold parse parse?
  obtain ⟨own⟩ := key
  by_cases h : isWellFormed text = true <;> simp [h, eq_comm]

namespace Dependents

theorem isKey_of_read {d : Doc} {deps : Dependents} (h : Payload.read d = .ok deps) :
    ∀ e ∈ deps.entries, IsKey e.1.text := by
  obtain ⟨ms, close, entries, rfl, read, _, rfl⟩ := Reader.map_eq_ok_iff.1 h
  intro e he
  obtain ⟨name, _, _, key, _⟩ := Reader.mem_of_members read (Entries.mem_ofList he)
  obtain ⟨wellFormed, same⟩ := read_key_eq_ok_iff.1 key
  rw [same]
  exact ResourceKey.isWellFormed_iff.1 wellFormed

/-- Every key that is given is one of the grammar, also one that is given again later. -/
theorem isKey_of_given {members : List (Key × Doc)} {close : Close} {deps : Dependents}
    (h : Payload.read (.object members close) = .ok deps) {text : String} {d : Doc}
    (given : (.text text, d) ∈ members) : IsKey text := by
  obtain ⟨_, _, _, same, read, _, _⟩ := Reader.map_eq_ok_iff.1 h
  obtain ⟨rfl, rfl⟩ := Doc.object.inj same
  obtain ⟨key, known⟩ := Reader.readKey_of_members read given
  exact ResourceKey.isWellFormed_iff.1 (read_key_eq_ok_iff.1 known).1

end Dependents

/-! ## States -/

/-- The document of a state gives objects under a text, among the dependents or the references. -/
def Doc.GivesUnder (d : Doc) (text : String) : Prop :=
  ∃ members close item, (.text text, item) ∈ members ∧
    (d.Gives "dependents" 1 (.object members close) ∨
      d.Gives "references" 2 (.object members close))

namespace State

theorem isKey_of_read {d : Doc} {s : State} (h : Payload.read d = .ok s) :
    ∀ e ∈ s.dependents.entries ++ s.references.entries, IsKey e.1.text := by
  obtain ⟨members, fills, _⟩ := Record.fills_of_read field?_self h
  have blank : ∀ e ∈ (SortedMap.empty : Dependents).entries, IsKey e.1.text := by
    simp [SortedMap.empty]
  refine List.forall_mem_append.2 ⟨?_, ?_⟩
  · refine fills.part_holds (fun deps : Dependents => ∀ e ∈ deps.entries, IsKey e.1.text)
      dependents "dependents" rfl (fun _ _ => rfl) ?_ Record.ignore_keeps blank
      fun _ _ _ read => Dependents.isKey_of_read read
    simp [fields, Field.required, Field.optional, Field.defaulted, Field.keeps_set]
  · refine fills.part_holds (fun deps : Dependents => ∀ e ∈ deps.entries, IsKey e.1.text)
      references "references" rfl (fun _ _ => rfl) ?_ Record.ignore_keeps blank
      fun _ _ _ read => Dependents.isKey_of_read read
    simp [fields, Field.required, Field.optional, Field.defaulted, Field.keeps_set]

theorem isKey_of_gives {d : Doc} {s : State} (h : Payload.read d = .ok s) {text : String}
    (given : d.GivesUnder text) : IsKey text := by
  obtain ⟨members, close, item, inside, named | named⟩ := given
  · obtain ⟨_, _, filled⟩ := Record.filled_of_read (i := 1) rfl rfl h named
    obtain ⟨_, read, _⟩ := map_eq_ok.1 filled
    exact Dependents.isKey_of_given read inside
  · obtain ⟨_, _, filled⟩ := Record.filled_of_read (i := 2) rfl rfl h named
    obtain ⟨_, read, _⟩ := map_eq_ok.1 filled
    exact Dependents.isKey_of_given read inside

end State

/-! ## Requests -/

theorem Payload.request_eq_error {α : Type} [Payload α] {text : Bytes} {e : DecodeError}
    (h : (read (Document.parse text).root : Except DecodeError α) = .error e) :
    (request text : Except Fault α) = .error (.decode e) := by
  simp [request, decode, h]

/-- A hook that works on a state needs one to be read. -/
theorem Controller.invoke_eq_error (c : Controller) {hook : Hook}
    (onState : hook = .reconcile ∨ hook = .plan) {request : Bytes} {e : DecodeError}
    (h : (Payload.read (Document.parse request).root : Except DecodeError State) = .error e) :
    c.invoke hook request = .error (.decode e) := by
  have failed := Payload.request_eq_error h
  rcases onState with rfl | rfl <;> simp [invoke, failed]

namespace ResourceKey

/-- **Keys.** A text is parsed as a key when it is one of the grammar, and the key prints as the
text. It is the key of one type in small letters, whose kind, version and labels are its parts. The
keys of a state that is read are of the grammar, and a document that gives objects under any other
text is no state: the hooks that work on one fault while they decode it. -/
theorem keys_follow_grammar :
    (∀ text key, parse text = .ok key ↔ IsKey text ∧ key.text = text) ∧
    (∀ key : ResourceKey, IsKey key.text →
      ∃ t : ResourceType, Spells isLetterOrDigit t.parts ∧
        key.text.toList.splitOn '.' = t.parts ∧ t.key = key ∧
        ∀ u : ResourceType, Spells isLetterOrDigit u.parts → u.key = key → u = t) ∧
    (∀ (d : Doc) (s : State), Payload.read d = .ok s →
      ∀ e ∈ s.dependents.entries ++ s.references.entries, IsKey e.1.text) ∧
    ∀ (d : Doc) (text : String), d.GivesUnder text → ¬ IsKey text →
      ∃ e, (Payload.read d : Except DecodeError State) = .error e ∧
        ∀ (c : Controller) (hook : Hook) (request : Bytes), hook = .reconcile ∨ hook = .plan →
          (Document.parse request).root = d → c.invoke hook request = .error (.decode e) := by
  refine ⟨fun _ _ => parse_eq_ok_iff, fun _ => exists_type, fun _ _ => State.isKey_of_read, ?_⟩
  intro d text given other
  cases read : (Payload.read d : Except DecodeError State) with
  | ok s => exact absurd (State.isKey_of_gives read given) other
  | error e =>
    refine ⟨e, rfl, ?_⟩
    rintro c hook request onState rfl
    exact c.invoke_eq_error onState read

/-- A key with two labels, and a request whose only key ends with a newline. -/
theorem keys_follow_grammar_of_newline :
    let key : ResourceKey := ⟨"job.v1beta2.batch.x-k8s"⟩
    let dependents : Json := .object [("pod.v1\n", .array [])]
    let request : Json := .object [("object", .object []), ("dependents", dependents)]
    (∃ t : ResourceType, t.key = key ∧
      t.parts = ["job".toList, "v1beta2".toList, "batch".toList, "x-k8s".toList]) ∧
    (Doc.ofJson .text request).GivesUnder "pod.v1\n" ∧
    ∃ e, Noop.controller.invoke .reconcile request.bytes = .error (.decode e) := by
  intro key dependents request
  obtain ⟨_, types, _, refused⟩ := keys_follow_grammar
  obtain ⟨t, _, parts, same, _⟩ := types key (by decide)
  have given : (Doc.ofJson .text request).GivesUnder "pod.v1\n" :=
    ⟨_, _, _, List.mem_cons_self, .inl (.named (List.mem_cons_of_mem _ List.mem_cons_self))⟩
  obtain ⟨e, _, faults⟩ := refused _ _ given (by decide)
  have empty : Json.Fits 126 (.object []) := .object (by simp)
  have inner : Json.Fits 126 dependents := .object (by simpa using .array (by simp))
  have fits : request.Fits Document.depthLimit := .object (by simpa using ⟨empty, inner⟩)
  refine ⟨⟨t, same, by rw [← parts]; decide⟩, given, e, faults _ .reconcile _ (.inl rfl) ?_⟩
  rw [Document.parse_bytes fits]

end ResourceKey

end ControllerHooks
