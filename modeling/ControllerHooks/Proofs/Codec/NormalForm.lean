import ControllerHooks.Proofs.Codec.State
import ControllerHooks.Proofs.Patch.Wire

/-!
# The normal form of payloads

A payload can be spelled in many ways: options null or absent, fields by position, members of
free-form values in any order and more than once, points in time with any offset. What is written
of it is one spelling, which is read and written again unchanged.

* `State.times` and the like list the points in time of a payload; it is at whole seconds when
  none of them has a fraction (`State.wholeSeconds_eq_self_iff`).
* `AdmissionRequest.decode_encode`, `AdmissionResponse.decode_encode`, `Patch.decode_encode`, beside
  `State.decode_encode`: what is read back.
* `Payload.encode_is_normal_form` says it of everything that is read from a text.
-/

namespace ControllerHooks

open Record (Fills ignore_keeps)

variable {numbers : Number → Prop} {origin : Origin} {room : Nat}

/-! ## Points in time -/

/-- No point in time has a fraction of a second. -/
def Timestamp.AllWhole (times : List Timestamp) : Prop := ∀ t ∈ times, t.nanosecond = 0

theorem Timestamp.wholeSecond_eq_self_iff {t : Timestamp} :
    t.wholeSecond = t ↔ t.nanosecond = 0 := by
  cases t
  simp [wholeSecond, eq_comm]

theorem Timestamp.map_wholeSecond_eq_self_iff {x : Option Timestamp} :
    x.map wholeSecond = x ↔ AllWhole x.toList := by
  cases x <;> simp [AllWhole, wholeSecond_eq_self_iff]

theorem Timestamp.allWhole_append {a b : List Timestamp} :
    AllWhole (a ++ b) ↔ AllWhole a ∧ AllWhole b := List.forall_mem_append

/-- A list is left alone when each of its members is. -/
theorem map_eq_self_iff {α : Type} {f : α → α} {xs : List α} :
    xs.map f = xs ↔ ∀ x ∈ xs, f x = x := by
  induction xs with
  | nil => simp
  | cons x rest ih => simp [ih]

theorem Timestamp.allWhole_flatMap {α : Type} {times : α → List Timestamp} {xs : List α} :
    AllWhole (xs.flatMap times) ↔ ∀ x ∈ xs, AllWhole (times x) := by
  simp only [AllWhole, List.mem_flatMap]
  exact ⟨fun h x hx t ht => h t ⟨x, hx, ht⟩, fun h t ⟨x, hx, ht⟩ => h x hx t ht⟩

open Timestamp (AllWhole allWhole_append allWhole_flatMap)

namespace Metadata

/-- The points in time that metadata hold. -/
def times (m : Metadata) : List Timestamp :=
  m.creationTimestamp.toList ++ m.deletionTimestamp.toList ++
    (m.managedFields.getD []).flatMap fun e => e.time.toList

theorem wholeSeconds_eq_self_iff {m : Metadata} : m.wholeSeconds = m ↔ AllWhole m.times := by
  have managers : (m.managedFields.map fun entries => entries.map ManagedFields.wholeSeconds) =
      m.managedFields ↔ AllWhole ((m.managedFields.getD []).flatMap fun e => e.time.toList) := by
    have one (e : ManagedFields) : e.wholeSeconds = e ↔ AllWhole e.time.toList := by
      rw [← Timestamp.map_wholeSecond_eq_self_iff]
      cases e
      simp [ManagedFields.wholeSeconds]
    rw [allWhole_flatMap]
    cases m.managedFields <;> simp [map_eq_self_iff, one]
  rw [times, allWhole_append, allWhole_append, ← managers,
    ← Timestamp.map_wholeSecond_eq_self_iff, ← Timestamp.map_wholeSecond_eq_self_iff]
  cases m
  simp [wholeSeconds, and_assoc]

end Metadata

namespace Object

def times (o : Object) : List Timestamp := o.metadata.toList.flatMap Metadata.times

theorem wholeSeconds_eq_self_iff {o : Object} : o.wholeSeconds = o ↔ AllWhole o.times := by
  rw [times, allWhole_flatMap]
  cases o with
  | mk apiVersion kind metadata spec status extra =>
    cases metadata <;> simp [wholeSeconds, Metadata.wholeSeconds_eq_self_iff]

end Object

namespace Dependents

def times (deps : Dependents) : List Timestamp :=
  deps.entries.flatMap fun e => e.2.flatMap Object.times

theorem wholeSeconds_eq_self_iff {deps : Dependents} :
    deps.wholeSeconds = deps ↔ AllWhole deps.times := by
  have one (e : ResourceKey × List Object) :
      (e.1, e.2.map Object.wholeSeconds) = e ↔ AllWhole (e.2.flatMap Object.times) := by
    rw [allWhole_flatMap]
    simp only [Prod.ext_iff, true_and, map_eq_self_iff, Object.wholeSeconds_eq_self_iff]
  have entries : deps.wholeSeconds = deps ↔
      (deps.entries.map fun e => (e.1, e.2.map Object.wholeSeconds)) = deps.entries :=
    ⟨fun same => congrArg SortedMap.entries same, fun same => SortedMap.ext same⟩
  rw [entries, map_eq_self_iff, times, allWhole_flatMap]
  exact forall₂_congr fun e _ => one e

end Dependents

namespace State

def times (s : State) : List Timestamp :=
  s.object.times ++ Dependents.times s.dependents ++ Dependents.times s.references

theorem wholeSeconds_eq_self_iff {s : State} : s.wholeSeconds = s ↔ AllWhole s.times := by
  rw [times, allWhole_append, allWhole_append, ← Object.wholeSeconds_eq_self_iff,
    ← Dependents.wholeSeconds_eq_self_iff, ← Dependents.wholeSeconds_eq_self_iff]
  cases s
  simp [wholeSeconds, and_assoc]

end State

/-! ## Requests -/

namespace AdmissionRequest

def wholeSeconds (r : AdmissionRequest) : AdmissionRequest := ⟨r.object.wholeSeconds⟩

def times (r : AdmissionRequest) : List Timestamp := r.object.times

theorem wholeSeconds_eq_self_iff {r : AdmissionRequest} :
    r.wholeSeconds = r ↔ AllWhole r.times := by
  cases r
  simp [wholeSeconds, times, Object.wholeSeconds_eq_self_iff]

theorem legible_of_read {d : Doc} {r : AdmissionRequest} (h : Payload.read d = .ok r)
    (fits : d.Within numbers (room + 5)) : r.object.Legible numbers room := by
  have self : ∀ f ∈ [Field.required "object" Payload.read fun (_ : AdmissionRequest) o => ⟨o⟩],
      Record.field? [Field.required "object" Payload.read fun _ o => ⟨o⟩] f.name = some f := by
    simp [Record.field?, Field.required]
  obtain ⟨members, fills, inside⟩ := Record.fills_of_read self h
  have fit := inside numbers _ fits
  refine fills.part_holds (Object.Legible numbers room) object "object" rfl (fun _ _ => rfl) ?_
    ignore_keeps Object.legible_blank ?_
  · simp [Field.required]
  · exact fun e inside x read => Object.legible_of_read read (fit e inside)

theorem read_toJson {r : AdmissionRequest} (h : r.object.Legible numbers room) :
    Payload.read (Doc.ofJson origin (Payload.toJson r)) = .ok r.wholeSeconds := by
  refine Record.ofMembers_of_fills (.given rfl (Object.read_toJson h origin) rfl)
    (by simp [Doc.ofMembers]) (by simp [Field.required, Doc.ofMembers]) rfl

theorem fits_toJson [Number.CoversWords numbers] {r : AdmissionRequest}
    (h : r.object.Legible numbers room) :
    (Payload.toJson r : Json).Within numbers (room + 5) := by
  have object := Object.fits_toJson h
  exact .object (by simpa using object)

theorem toJson_wholeSeconds (r : AdmissionRequest) :
    (Payload.toJson r.wholeSeconds : Json) = Payload.toJson r := by
  show Json.object [("object", Payload.toJson r.object.wholeSeconds)] = _
  rw [Object.toJson_wholeSeconds]
  rfl

theorem decode_encode {r : AdmissionRequest} (h : r.object.Legible Number.IsWord 122) :
    Payload.decode (Payload.encode r) = .ok r.wholeSeconds := by
  rw [Payload.encode, Payload.decode_bytes (fits_toJson h)]
  exact read_toJson h

end AdmissionRequest

/-! ## Responses -/

namespace AdmissionResponse

theorem restores_status (s : AdmissionStatus) :
    Reader.Restores Payload.read Payload.toJson s s where
  notNull := by simp [Payload.toJson]
  read_back _ := rfl

theorem restores_patchType (t : PatchType) :
    Reader.Restores Payload.read Payload.toJson t t where
  notNull := by simp [Payload.toJson]
  read_back _ := rfl

theorem restores_patch (p : EncodedPatch) :
    Reader.Restores Payload.read Payload.toJson p p where
  notNull := by simp [Payload.toJson]
  read_back _ := rfl

theorem read_toJson (r : AdmissionResponse) :
    Payload.read (Doc.ofJson origin (Payload.toJson r)) = .ok r := by
  obtain ⟨allowed, status, patchType, patch⟩ := r
  have keys := (((List.Sublist.refl ["allowed"]).append
    (Json.keys_optional "status" Payload.toJson status)).append
    (Json.keys_optional "patchType" Payload.toJson patchType)).append
    (Json.keys_optional "patch" Payload.toJson patch)
  refine Record.ofMembers_of_fills ?_ ?_ ?_ rfl
  · simp only [Doc.ofMembers_append, List.append_assoc]
    refine Fills.append (.given rfl rfl rfl) ?_
    refine Fills.append (.restored rfl restores_status rfl rfl) ?_
    refine Fills.append (.restored rfl restores_patchType rfl rfl) ?_
    exact .restored rfl restores_patch rfl rfl
  · apply Doc.nodup_ofMembers
    simp only [List.map_append]
    exact keys.nodup (by decide)
  · simp [Field.required, Field.optional, Doc.keys_ofMembers]

theorem fits_toJson (r : AdmissionResponse) :
    (Payload.toJson r : Json).Within numbers (room + 2) := by
  have status (s : AdmissionStatus) : (Payload.toJson s : Json).Within numbers (room + 1) :=
    .object (by simpa using .string _)
  refine .object ?_
  simp only [List.forall_mem_append, Json.forall_mem_optional, List.forall_mem_singleton]
  exact ⟨⟨⟨.bool _, fun s _ => status s⟩, fun _ _ => .string _⟩, fun _ _ => .string _⟩

theorem decode_encode (r : AdmissionResponse) :
    Payload.decode (Payload.encode r) = .ok r := by
  have fits : (Payload.toJson r : Json).Fits Document.depthLimit := fits_toJson r
  rw [Payload.encode, Payload.decode_bytes fits]
  exact read_toJson r

end AdmissionResponse

/-! ## Patches -/

namespace Patch

theorem legible_of_decode {text : Bytes} {patch : Patch} (words : text.HasWords)
    (h : Payload.decode text = .ok patch) :
    ∀ op ∈ patch, op.ValueIs (Json.Legible Number.IsWord 125) := by
  have fits : (Document.parse text).root.Within Number.IsWord (125 + 2) :=
    Document.parse_within words
  intro op hop
  obtain ⟨d, fit, read⟩ := Reader.mem_of_list (Payload.read_of_decode h) fits op hop
  exact Operation.legible_of_read read fit

theorem decode_encode {patch : Patch}
    (h : ∀ op ∈ patch, op.ValueIs (Json.Legible Number.IsWord 125)) :
    Payload.decode (Payload.encode patch) = .ok patch := by
  have fits : (Payload.toJson patch).Fits Document.depthLimit := by
    apply Json.fits_array_map
    intro op hop
    exact Operation.toJson_fits ((h op hop).imp fun _ legible => legible.fits)
  rw [Payload.encode, Payload.decode_bytes fits]
  exact EncodedPatch.read_patch (fun op hop => (h op hop).imp fun _ legible => legible.ordered) _

end Patch

/-! ## The normal form -/

namespace Payload

/-- What is written of a payload is read as something that is written the same, and it is the
payload itself exactly when none of these times has a fraction of a second. -/
def EncodesNormally {α : Type} [Payload α] (x : α) (times : List Timestamp) : Prop :=
  ∃ y : α, decode (encode x) = .ok y ∧ encode y = encode x ∧ (y = x ↔ AllWhole times)

theorem encodesNormally_of_self {α : Type} [Payload α] {x : α}
    (read : decode (encode x) = .ok x) : EncodesNormally x [] :=
  ⟨x, read, rfl, iff_of_true rfl (by simp [AllWhole])⟩

/-- **Normal form.** Whatever is read from a text whose numbers are integers of 64 bits is written
in a way that is stable: written, read and written again it is the same text. What is read back is
the payload itself unless a time in its metadata has a fraction of a second, which is not
written. -/
theorem encode_is_normal_form {text : Bytes} (words : text.HasWords) :
    (∀ x : AdmissionRequest, decode text = .ok x → EncodesNormally x x.times) ∧
    (∀ x : AdmissionResponse, decode text = .ok x → EncodesNormally x []) ∧
    (∀ x : State, decode text = .ok x → EncodesNormally x x.times) ∧
    (∀ x : Patch, decode text = .ok x → EncodesNormally x []) := by
  refine ⟨?_, ?_, ?_, ?_⟩
  · intro x read
    have fits : (Document.parse text).root.Within Number.IsWord (122 + 5) :=
      Document.parse_within words
    have legible := AdmissionRequest.legible_of_read (read_of_decode read) fits
    exact ⟨_, AdmissionRequest.decode_encode legible,
      congrArg Json.bytes x.toJson_wholeSeconds, AdmissionRequest.wholeSeconds_eq_self_iff⟩
  · intro x _
    exact encodesNormally_of_self x.decode_encode
  · intro x read
    exact ⟨_, State.decode_encode (State.portable_of_decode words read),
      congrArg Json.bytes x.toJson_wholeSeconds, State.wholeSeconds_eq_self_iff⟩
  · intro x read
    exact encodesNormally_of_self (Patch.decode_encode (Patch.legible_of_decode words read))

/-- A request by position, with a point in time that has an offset and a fraction. -/
def positionalRequest : Json := .array [.object
  [("metadata", .object [("creationTimestamp", .string "2024-01-01 23:30:05.5-02:00")])]]

/-- Its time is taken to the next day and loses its fraction, once. -/
theorem encode_is_normal_form_of_positional_request :
    positionalRequest.bytes.HasWords ∧ ∃ x y : AdmissionRequest,
      decode positionalRequest.bytes = .ok x ∧ decode (encode x) = .ok y ∧
      encode y = encode x ∧ y ≠ x := by
  have fits : positionalRequest.Fits Document.depthLimit := by
    have metadata : (Json.object
        [("creationTimestamp", .string "2024-01-01 23:30:05.5-02:00")]).Fits 125 :=
      .object (by simpa using .string _)
    have object : Json.Fits 126 (.object [("metadata", .object
        [("creationTimestamp", .string "2024-01-01 23:30:05.5-02:00")])]) :=
      .object (by simpa using metadata)
    exact .array (by simpa using object)
  have words := Json.hasWords_bytes fits
  let created : Timestamp := ⟨2024, 1, 2, 1, 30, 5, 500000000⟩
  let x : AdmissionRequest :=
    ⟨{ Object.blank with
      metadata := some { Metadata.blank with creationTimestamp := some created } }⟩
  have read : decode positionalRequest.bytes = .ok x := (decode_bytes fits).trans rfl
  obtain ⟨y, again, same, whole⟩ := (encode_is_normal_form words).1 x read
  refine ⟨words, x, y, read, again, same, ?_⟩
  intro unchanged
  have fraction : created.nanosecond = 0 := whole.1 unchanged created List.mem_cons_self
  cases fraction

end Payload

end ControllerHooks
