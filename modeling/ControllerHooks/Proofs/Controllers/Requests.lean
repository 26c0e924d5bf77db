import ControllerHooks.Controllers.Registry
import ControllerHooks.Proofs.Decode.Strict
import ControllerHooks.Proofs.Json.Parsing

/-!
# Requests name their object

A hook works on an object, so there is no answer to a request without one.

* `Doc.CarriesObject`: a request that names its object, or that gives it by position.
* `AdmissionRequest.carriesObject_of_read` and `State.carriesObject_of_read`: nothing else is read
  as a request.
* `Controller.invoke_needs_object`: a hook completes only on the text of such a document, and
  otherwise faults while it decodes.
-/

namespace ControllerHooks

namespace Doc

def IsObject : Doc → Prop
  | .object _ _ => True
  | _ => False

/-- The document names an object, or begins with one as the first of at most `places` fields. -/
inductive CarriesObject (places : Nat) : Doc → Prop
  | named {members : List (Key × Doc)} {close : Close} :
    (∃ d, (.text "object", d) ∈ members) → (∀ d, (.text "object", d) ∈ members → d.IsObject) →
    CarriesObject places (.object members close)
  | placed {first : Doc} {rest : List Doc} {close : Close} :
    first.IsObject → rest.length < places → CarriesObject places (.array (first :: rest) close)

end Doc

/-- How many fields a request of the hook has. -/
def Hook.places : Hook → Nat
  | validate | mutate => 1
  | reconcile | plan => State.fields.length

/-! ## Reading -/

theorem Object.isObject_of_read {d : Doc} {o : Object} (h : Payload.read d = .ok o) :
    d.IsObject := by
  cases d with
  | object => trivial
  | flawed | null | bool | number | string | array | buried => cases h

theorem Field.isObject_of_fill {ρ : Type} {name : String} {put : ρ → Object → ρ} {r next : ρ}
    {d : Doc} (h : (required name Payload.read put).fill r d = .ok next) : d.IsObject := by
  obtain ⟨_, read, _⟩ := map_eq_ok.1 h
  exact Object.isObject_of_read read

/-- A record whose first field is the object carries one. -/
theorem Record.carriesObject_of_read {ρ : Type} {name : String} {put : ρ → Object → ρ}
    {others : List (Field ρ)} {blank r : ρ} {d : Doc}
    (h : read name (.required "object" Payload.read put :: others) blank d = .ok r) :
    d.CarriesObject (others.length + 1) := by
  have known : field? (.required "object" Payload.read put :: others) "object" =
      some (.required "object" Payload.read put) := by
    simp [field?, Field.required]
  rcases given_by rfl known h with
    ⟨members, close, rfl, given, each⟩ | ⟨first, rest, close, rfl, few, next, filled⟩
  · refine .named given ?_
    intro d inside
    obtain ⟨_, _, filled⟩ := each d inside
    exact Field.isObject_of_fill filled
  · exact .placed (Field.isObject_of_fill filled) (Nat.lt_succ_of_le few)

theorem AdmissionRequest.carriesObject_of_read {d : Doc} {request : AdmissionRequest}
    (h : Payload.read d = .ok request) : d.CarriesObject 1 :=
  Record.carriesObject_of_read h

theorem State.carriesObject_of_read {d : Doc} {s : State} (h : Payload.read d = .ok s) :
    d.CarriesObject fields.length :=
  Record.carriesObject_of_read h

namespace Payload

variable {α : Type} [Payload α] {text : Bytes}

theorem spells_of_decode (strict : (read : Reader α).Strict) {x : α} (h : decode text = .ok x) :
    text.Spells (Document.parse text).root := by
  obtain ⟨read, ended⟩ := decode_eq_ok_iff.1 h
  exact Document.parse_spells ended (strict _ x read)

/-- A request is decoded, or the fault says why not. -/
theorem request_cases (α : Type) [Payload α] (text : Bytes) :
    (∃ x : α, decode text = .ok x) ∨ ∃ e, (request text : Except Fault α) = .error (.decode e) := by
  cases read : (decode text : Except DecodeError α) with
  | ok x => exact .inl ⟨x, rfl⟩
  | error e => exact .inr ⟨e, by simp [request, read]⟩

end Payload

/-! ## Hooks -/

namespace Controller

/-- A request carries an object, or it is not decoded. -/
theorem invoke_cases (c : Controller) (hook : Hook) (text : Bytes) :
    (∃ d, text.Spells d ∧ d.CarriesObject hook.places) ∨
      ∃ e, c.invoke hook text = .error (.decode e) := by
  cases hook with
  | validate | mutate =>
    rcases Payload.request_cases AdmissionRequest text with ⟨request, read⟩ | ⟨e, failed⟩
    · refine .inl ⟨_, Payload.spells_of_decode AdmissionRequest.strict read, ?_⟩
      exact AdmissionRequest.carriesObject_of_read (Payload.read_of_decode read)
    · exact .inr ⟨e, by simp [invoke, failed]⟩
  | reconcile | plan =>
    rcases Payload.request_cases State text with ⟨s, read⟩ | ⟨e, failed⟩
    · refine .inl ⟨_, Payload.spells_of_decode State.strict read, ?_⟩
      exact State.carriesObject_of_read (Payload.read_of_decode read)
    · exact .inr ⟨e, by simp [invoke, failed]⟩

/-- **Requests carry an object.** A hook that completes was given the text of a well-formed
document that names an object, or that gives one first by position. On any other text it faults
while it decodes. -/
theorem invoke_needs_object (c : Controller) (hook : Hook) (text : Bytes) :
    (∀ response, c.invoke hook text = .ok response →
      ∃ d, text.Spells d ∧ d.CarriesObject hook.places) ∧
    ((∀ d, text.Spells d → ¬ d.CarriesObject hook.places) →
      ∃ e, c.invoke hook text = .error (.decode e)) := by
  constructor
  · intro response completed
    rcases c.invoke_cases hook text with carried | ⟨e, failed⟩
    · exact carried
    · rw [failed] at completed
      cases completed
  · intro other
    rcases c.invoke_cases hook text with ⟨d, spelled, carries⟩ | failed
    · exact absurd carries (other d spelled)
    · exact failed

/-- The smallest request of an admission hook. -/
def emptyObjectRequest : Json := .object [("object", .object [])]

theorem decode_emptyObjectRequest :
    Payload.decode emptyObjectRequest.bytes = .ok (⟨.blank⟩ : AdmissionRequest) := by
  have fits : emptyObjectRequest.Fits Document.depthLimit := by
    have inner : Json.Fits 126 (.object []) := .object (by simp)
    exact .object (by simpa using inner)
  exact (Payload.decode_bytes fits).trans rfl

/-- It is answered, and a text in its place is not decoded. -/
theorem invoke_needs_object_of_empty_object :
    (∃ response, Noop.controller.invoke .mutate emptyObjectRequest.bytes = .ok response) ∧
    (∃ d, emptyObjectRequest.bytes.Spells d ∧ d.CarriesObject 1) ∧
    ∃ e, Noop.controller.invoke .mutate (Json.string "object").bytes = .error (.decode e) := by
  have answered : ∃ response,
      Noop.controller.invoke .mutate emptyObjectRequest.bytes = .ok response := by
    simp only [invoke, Payload.request, decode_emptyObjectRequest]
    exact ⟨_, rfl⟩
  obtain ⟨response, completed⟩ := answered
  refine ⟨⟨response, completed⟩,
    (invoke_needs_object Noop.controller .mutate _).1 response completed,
    (invoke_needs_object Noop.controller .mutate _).2 ?_⟩
  intro d spelled carries
  have tokens := spelled.tokens
  rw [Json.lex_bytes (.string "object" : (Json.string "object").Fits 0)] at tokens
  cases carries <;> simp [Json.tokens, Doc.tokens] at tokens

/-- A request that names nothing and is answered nevertheless. -/
theorem array_of_an_object_is_answered :
    (∃ response, Noop.controller.invoke .mutate (Json.array [.object []]).bytes = .ok response) ∧
    ¬ ∃ members close, (Json.array [.object []]).bytes.Spells (.object members close) := by
  have inner : Json.Fits 126 (.object []) := .object (by simp)
  have fits : (Json.array [.object []]).Fits Document.depthLimit := .array (by simpa using inner)
  have read : (Payload.decode (Json.array [.object []]).bytes :
      Except DecodeError AdmissionRequest) = .ok ⟨.blank⟩ := (Payload.decode_bytes fits).trans rfl
  constructor
  · simp only [invoke, Payload.request, read]
    exact ⟨_, rfl⟩
  · rintro ⟨members, close, spelled⟩
    have tokens := spelled.tokens
    rw [Json.lex_bytes fits] at tokens
    simp [Json.tokens, Doc.tokens] at tokens

end Controller

end ControllerHooks
