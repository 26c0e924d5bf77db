import ControllerHooks.Proofs.Codec.Values

/-!
# Metadata that are written and read again

Metadata come back as they were written, with every point in time at the start of its second.

* `Metadata.legible_of_read`: what is read can be written and read again.
* `Metadata.read_toJson`: what comes back.
-/

namespace ControllerHooks

open Record (Fills ignore_keeps)

variable {numbers : Number → Prop} {origin : Origin} {room : Nat}

theorem Reader.mem_of_list {α : Type} {read : Reader α} {d : Doc} {xs : List α}
    (h : list read d = .ok xs) (fits : d.Within numbers (room + 1)) :
    ∀ x ∈ xs, ∃ e : Doc, e.Within numbers room ∧ read e = .ok x := by
  obtain ⟨items, close, rfl, items_read, _⟩ := list_eq_ok_iff.1 h
  intro x hx
  obtain ⟨e, inside, read_one⟩ := mem_of_mapM items_read x hx
  cases fits with
  | array fit _ => exact ⟨e, fit e inside, read_one⟩

/-! ## Owners -/

namespace OwnerReference

theorem read_toJson (r : OwnerReference) (origin : Origin) :
    read (Doc.ofJson origin r.toJson) = .ok r := by
  refine Record.readLoose_eq_ok_iff.2 ⟨_, _, rfl, ?_, rfl⟩
  simp only [Doc.ofMembers_append, List.append_assoc]
  apply Fills.append (.cons rfl (.nil _))
  apply Fills.append (.restored rfl Reader.restores_bool rfl rfl)
  apply Fills.append (.restored rfl Reader.restores_bool rfl rfl)
  exact .cons rfl (.cons rfl (.cons rfl (.nil _)))

theorem fits_toJson (r : OwnerReference) : r.toJson.Within numbers (room + 1) := by
  refine .object ?_
  simp only [List.forall_mem_append, Json.forall_mem_optional, List.forall_mem_cons]
  have none : ∀ m ∈ ([] : List (String × Json)), m.2.Within numbers room := by simp
  have text (s : String) : (Json.string s).Within numbers room := .string s
  exact ⟨⟨⟨⟨text _, none⟩, fun _ _ => .bool _⟩, fun _ _ => .bool _⟩, text _, text _, text _, none⟩

end OwnerReference

/-! ## Managers -/

namespace ManagedFields

/-- The fields are legible, and the time is one of the calendar. -/
structure Legible (numbers : Number → Prop) (room : Nat) (m : ManagedFields) : Prop where
  fields : ∀ v ∈ m.fields, v ≠ .null ∧ v.Legible numbers room
  time : ∀ t ∈ m.time, t.Valid

def wholeSeconds (m : ManagedFields) : ManagedFields :=
  { m with time := m.time.map Timestamp.wholeSecond }

theorem legible_of_read {d : Doc} {m : ManagedFields} (h : read d = .ok m)
    (fits : d.Within numbers (room + 1)) : m.Legible numbers room := by
  obtain ⟨members, close, rfl, fills, _⟩ := Record.readLoose_eq_ok_iff.1 h
  cases fits with
  | object fit _ =>
    constructor
    · refine fills.part_holds (fun x => ∀ v ∈ x, v ≠ .null ∧ v.Legible numbers room) fields
        "fieldsV1" rfl (fun _ _ => rfl) ?_ ignore_keeps (by simp [blank]) ?_
      · simp [Field.optional, Field.keeps_set]
      · exact fun e inside x read => Reader.optional_json_legible read (fit e inside)
    · refine fills.part_holds (fun x => ∀ t ∈ x, t.Valid) time "time"
        rfl (fun _ _ => rfl) ?_ ignore_keeps (by simp [blank]) ?_
      · simp [Field.optional, Field.keeps_set]
      · exact fun e inside x read => Reader.optional_timestamp_valid read

theorem read_toJson {m : ManagedFields} (h : m.Legible numbers room) (origin : Origin) :
    read (Doc.ofJson origin m.toJson) = .ok m.wholeSeconds := by
  have value (v : Json) (here : m.fields = some v) : Reader.json.Restores id v v := by
    obtain ⟨notNull, legible⟩ := h.fields v here
    exact Reader.restores_json notNull legible
  have second (t : Timestamp) (here : m.time = some t) :
      Reader.timestamp.Restores Metadata.timeJson t t.wholeSecond :=
    Reader.restores_timestamp (h.time t here)
  refine Record.readLoose_eq_ok_iff.2 ⟨_, _, rfl, ?_, rfl⟩
  simp only [Doc.ofMembers_append, List.append_assoc]
  apply Fills.append (.restored rfl Reader.restores_string rfl rfl)
  apply Fills.append (.restored rfl Reader.restores_string rfl rfl)
  apply Fills.append (.kept rfl value rfl rfl)
  apply Fills.append (.restored rfl Reader.restores_string rfl rfl)
  apply Fills.append (.restored rfl Reader.restores_string rfl rfl)
  apply Fills.append (.restored rfl Reader.restores_string rfl rfl)
  exact .optional rfl second rfl rfl

theorem fits_toJson {m : ManagedFields} (h : m.Legible numbers room) :
    m.toJson.Within numbers (room + 1) := by
  refine .object ?_
  simp only [List.forall_mem_append, Json.forall_mem_optional, and_assoc]
  have text {x : Option String} : ∀ s ∈ x, (Json.string s).Within numbers room :=
    fun _ _ => .string _
  exact ⟨text, text, fun v here => (h.fields v here).2.fits, text, text, text,
    fun t _ => Metadata.fits_timeJson t⟩

theorem toJson_wholeSeconds (m : ManagedFields) : m.wholeSeconds.toJson = m.toJson := by
  cases m with
  | mk _ _ _ _ _ _ time => cases time <;> rfl

end ManagedFields

/-! ## Metadata -/

namespace Metadata

/-- The points in time are of the calendar, and the managed fields are legible. -/
structure Legible (numbers : Number → Prop) (room : Nat) (m : Metadata) : Prop where
  creationTimestamp : ∀ t ∈ m.creationTimestamp, t.Valid
  deletionTimestamp : ∀ t ∈ m.deletionTimestamp, t.Valid
  managedFields : ∀ entries ∈ m.managedFields, ∀ e ∈ entries, e.Legible numbers room

def wholeSeconds (m : Metadata) : Metadata :=
  { m with
    creationTimestamp := m.creationTimestamp.map Timestamp.wholeSecond
    deletionTimestamp := m.deletionTimestamp.map Timestamp.wholeSecond
    managedFields := m.managedFields.map fun entries => entries.map ManagedFields.wholeSeconds }

theorem legible_of_read {d : Doc} {m : Metadata} (h : Payload.read d = .ok m)
    (fits : d.Within numbers (room + 3)) : m.Legible numbers room := by
  obtain ⟨members, close, rfl, fills, _⟩ := Record.readLoose_eq_ok_iff.1 h
  cases fits with
  | object fit _ =>
    constructor
    · refine fills.part_holds (fun x => ∀ t ∈ x, t.Valid) creationTimestamp "creationTimestamp"
        rfl (fun _ _ => rfl) ?_ ignore_keeps (by simp [blank]) ?_
      · simp [fields, Field.optional, Field.keeps_set]
      · exact fun e inside x read => Reader.optional_timestamp_valid read
    · refine fills.part_holds (fun x => ∀ t ∈ x, t.Valid) deletionTimestamp "deletionTimestamp"
        rfl (fun _ _ => rfl) ?_ ignore_keeps (by simp [blank]) ?_
      · simp [fields, Field.optional, Field.keeps_set]
      · exact fun e inside x read => Reader.optional_timestamp_valid read
    · refine fills.part_holds (fun x => ∀ entries ∈ x, ∀ e ∈ entries, e.Legible numbers room)
        managedFields "managedFields" rfl (fun _ _ => rfl) ?_ ignore_keeps (by simp [blank]) ?_
      · simp [fields, Field.optional, Field.keeps_set]
      · rintro ⟨_, d⟩ inside x read entries rfl e he
        rcases Reader.of_optional read with ⟨_, none⟩ | ⟨_, read_entries, list, same⟩
        · cases none
        · obtain rfl := Option.some.inj same
          obtain ⟨item, fits, read⟩ := Reader.mem_of_list list (fit _ inside) e he
          exact ManagedFields.legible_of_read read fits

theorem read_toJson {m : Metadata} (h : m.Legible numbers room) (origin : Origin) :
    Payload.read (Doc.ofJson origin (Payload.toJson m)) = .ok m.wholeSeconds := by
  have created (t : Timestamp) (here : m.creationTimestamp = some t) :
      Reader.timestamp.Restores timeJson t t.wholeSecond :=
    Reader.restores_timestamp (h.creationTimestamp t here)
  have deleted (t : Timestamp) (here : m.deletionTimestamp = some t) :
      Reader.timestamp.Restores timeJson t t.wholeSecond :=
    Reader.restores_timestamp (h.deletionTimestamp t here)
  have managers (entries : List ManagedFields) (here : m.managedFields = some entries) :
      (Reader.list ManagedFields.read).Restores (arrayJson ManagedFields.toJson) entries
        (entries.map ManagedFields.wholeSeconds) := by
    apply Reader.restores_array
    intro e he
    exact ManagedFields.read_toJson (h.managedFields entries here e he)
  have owners (rs : List OwnerReference) :
      (Reader.list OwnerReference.read).Restores (arrayJson OwnerReference.toJson) rs rs := by
    have each : (Reader.list OwnerReference.read).Restores (arrayJson OwnerReference.toJson) rs
        (rs.map fun r => r) := Reader.restores_array fun r _ => r.read_toJson
    rwa [List.map_id'] at each
  refine Record.readLoose_eq_ok_iff.2 ⟨_, _, rfl, ?_, rfl⟩
  simp only [members, Doc.ofMembers_append, List.append_assoc]
  apply Fills.append (.restored rfl Reader.restores_textMap rfl rfl)
  apply Fills.append (.optional rfl created rfl rfl)
  apply Fills.append (.restored rfl Reader.restores_int64 rfl rfl)
  apply Fills.append (.optional rfl deleted rfl rfl)
  apply Fills.append (.restored rfl Reader.restores_texts rfl rfl)
  apply Fills.append (.restored rfl Reader.restores_string rfl rfl)
  apply Fills.append (.restored rfl Reader.restores_int64 rfl rfl)
  apply Fills.append (.restored rfl Reader.restores_textMap rfl rfl)
  apply Fills.append (.optional rfl managers rfl rfl)
  apply Fills.append (.restored rfl Reader.restores_string rfl rfl)
  apply Fills.append (.restored rfl Reader.restores_string rfl rfl)
  apply Fills.append (.restored rfl owners rfl rfl)
  apply Fills.append (.restored rfl Reader.restores_string rfl rfl)
  apply Fills.append (.restored rfl Reader.restores_string rfl rfl)
  exact .restored rfl Reader.restores_string rfl rfl

theorem fits_toJson [Number.CoversWords numbers] {m : Metadata} (h : m.Legible numbers room) :
    (Payload.toJson m : Json).Within numbers (room + 3) := by
  refine .object ?_
  simp only [members, List.forall_mem_append, Json.forall_mem_optional, and_assoc]
  have text {x : Option String} : ∀ s ∈ x, (Json.string s).Within numbers (room + 2) :=
    fun _ _ => .string _
  have texts {x : Option TextMap} : ∀ t ∈ x, (mapJson t).Within numbers (room + 2) :=
    fun t _ => fits_mapJson t
  have word {x : Option Int64} : ∀ n ∈ x, (int64Json n).Within numbers (room + 2) :=
    fun n _ => fits_int64Json n
  have time {x : Option Timestamp} : ∀ t ∈ x, (timeJson t).Within numbers (room + 2) :=
    fun t _ => fits_timeJson t
  have finalizers : ∀ ts ∈ m.finalizers, (textsJson ts).Within numbers (room + 2) :=
    fun ts _ => fits_textsJson ts
  have managers : ∀ entries ∈ m.managedFields,
      (arrayJson ManagedFields.toJson entries).Within numbers (room + 2) := fun entries here =>
    Json.fits_array_map fun e he => ManagedFields.fits_toJson (h.managedFields entries here e he)
  have owners : ∀ rs ∈ m.ownerReferences,
      (arrayJson OwnerReference.toJson rs).Within numbers (room + 2) := fun rs _ =>
    Json.fits_array_map fun r _ => r.fits_toJson
  exact ⟨texts, time, word, time, finalizers, text, word, texts, managers, text, text, owners, text,
    text, text⟩

theorem arrayJson_wholeSeconds (entries : List ManagedFields) :
    arrayJson ManagedFields.toJson (entries.map ManagedFields.wholeSeconds) =
      arrayJson ManagedFields.toJson entries := by
  simp [arrayJson, ManagedFields.toJson_wholeSeconds]

theorem optional_wholeSecond (name : String) (x : Option Timestamp) :
    Json.optional name timeJson (x.map Timestamp.wholeSecond) = Json.optional name timeJson x := by
  cases x <;> rfl

theorem toJson_wholeSeconds (m : Metadata) :
    (Payload.toJson m.wholeSeconds : Json) = Payload.toJson m := by
  have managers : Json.optional "managedFields" (arrayJson ManagedFields.toJson)
      (m.managedFields.map fun entries => entries.map ManagedFields.wholeSeconds) =
        Json.optional "managedFields" (arrayJson ManagedFields.toJson) m.managedFields := by
    cases m.managedFields with
    | none => rfl
    | some entries => simp [Json.optional, arrayJson_wholeSeconds]
  show Json.object m.wholeSeconds.members = .object m.members
  simp only [members, wholeSeconds, optional_wholeSecond, managers]

end Metadata

end ControllerHooks
