import ControllerHooks.Proofs.Codec.State

/-!
# What is read is ordered

Every free-form value in a state that was read from a request is ordered, whatever its numbers are,
and so is the document of each of its objects.

* `State.ordered_of_decode`: the parent and the dependents of a request.
* `Object.toValue_ordered`: the document that differences are taken of.
-/

namespace ControllerHooks

open Record (Fills ignore_keeps)

/-! ## Values -/

namespace Entries

/-- Entries are sorted when their keys are among sorted ones, in the same order. -/
theorem sorted_of_keys {κ α : Type} [Ord κ] {entries : List (κ × α)} (keys : List κ)
    (among : (entries.map Prod.fst).Sublist keys)
    (sorted : keys.Pairwise fun k l => compare k l = .lt) : Sorted entries :=
  List.pairwise_map.1 (sorted.sublist among)

end Entries

namespace Json

theorem ordered_strings {entries : List (String × String)} (sorted : Entries.Sorted entries) :
    (Json.object (entries.map fun e => (e.1, .string e.2))).Ordered := by
  refine .object (List.pairwise_map.2 sorted) ?_
  intro m hm
  obtain ⟨e, _, rfl⟩ := List.mem_map.1 hm
  exact .string _

theorem ordered_array_map {α : Type} {toJson : α → Json} {xs : List α}
    (h : ∀ x ∈ xs, (toJson x).Ordered) : (Json.array (xs.map toJson)).Ordered := by
  apply Ordered.array
  intro v hv
  obtain ⟨x, hx, rfl⟩ := List.mem_map.1 hv
  exact h x hx

end Json

namespace Reader

theorem json_ordered {d : Doc} {v : Json} (h : json d = .ok v) : v.Ordered :=
  Doc.toJson_ordered d (wellFormed_eq_ok.1 h)

theorem optional_json_ordered {d : Doc} {x : Option Json} (h : optional json d = .ok x) :
    ∀ v ∈ x, v.Ordered := by
  rintro v rfl
  rcases of_optional h with ⟨_, none⟩ | ⟨_, w, read, same⟩
  · cases none
  · obtain rfl := Option.some.inj same
    exact json_ordered read

end Reader

/-! ## Metadata -/

theorem OwnerReference.toJson_ordered (r : OwnerReference) : r.toJson.Ordered := by
  refine .object (Entries.sorted_of_keys
    ["apiVersion", "blockOwnerDeletion", "controller", "kind", "name", "uid"] ?_ (by decide)) ?_
  · simp only [List.map_append]
    exact (((List.Sublist.refl _).append (Json.keys_optional _ _ _)).append
      (Json.keys_optional _ _ _)).append (.refl _)
  · simp only [List.forall_mem_append, Json.forall_mem_optional, List.forall_mem_cons]
    have none : ∀ m ∈ ([] : List (String × Json)), m.2.Ordered := by simp
    have text (s : String) : (Json.string s).Ordered := .string s
    exact ⟨⟨⟨⟨text _, none⟩, fun _ _ => .bool _⟩, fun _ _ => .bool _⟩, text _, text _, text _, none⟩

namespace ManagedFields

def Ordered (m : ManagedFields) : Prop := ∀ v ∈ m.fields, v.Ordered

theorem ordered_of_read {d : Doc} {m : ManagedFields} (h : read d = .ok m) : m.Ordered := by
  obtain ⟨members, close, rfl, fills, _⟩ := Record.readLoose_eq_ok_iff.1 h
  refine fills.part_holds (fun x => ∀ v ∈ x, v.Ordered) fields "fieldsV1"
    rfl (fun _ _ => rfl) ?_ ignore_keeps (by simp [blank]) ?_
  · simp [Field.optional, Field.keeps_set]
  · exact fun _ _ _ read => Reader.optional_json_ordered read

theorem toJson_ordered {m : ManagedFields} (h : m.Ordered) : m.toJson.Ordered := by
  refine .object (Entries.sorted_of_keys ["apiVersion", "fieldsType", "fieldsV1", "manager",
    "operation", "subresource", "time"] ?_ (by decide)) ?_
  · simp only [List.map_append]
    have one {α : Type} (name : String) (toJson : α → Json) (x : Option α) :=
      Json.keys_optional name toJson x
    exact ((((((one _ _ _).append (one _ _ _)).append (one _ _ _)).append (one _ _ _)).append
      (one _ _ _)).append (one _ _ _)).append (one _ _ _)
  · simp only [List.forall_mem_append, Json.forall_mem_optional, and_assoc]
    have text {x : Option String} : ∀ s ∈ x, (Json.string s).Ordered := fun _ _ => .string _
    exact ⟨text, text, h, text, text, text, fun _ _ => .string _⟩

end ManagedFields

namespace Metadata

def Ordered (m : Metadata) : Prop := ∀ entries ∈ m.managedFields, ∀ e ∈ entries, e.Ordered

theorem ordered_of_read {d : Doc} {m : Metadata} (h : Payload.read d = .ok m) : m.Ordered := by
  obtain ⟨members, close, rfl, fills, _⟩ := Record.readLoose_eq_ok_iff.1 h
  refine fills.part_holds (fun x => ∀ entries ∈ x, ∀ e ∈ entries, e.Ordered)
    managedFields "managedFields" rfl (fun _ _ => rfl) ?_ ignore_keeps (by simp [blank]) ?_
  · simp [fields, Field.optional, Field.keeps_set]
  · rintro _ _ x read entries rfl e he
    rcases Reader.of_optional read with ⟨_, none⟩ | ⟨_, listed, list, same⟩
    · cases none
    · obtain rfl := Option.some.inj same
      obtain ⟨_, _, _, items, _⟩ := Reader.list_eq_ok_iff.1 list
      obtain ⟨_, _, read⟩ := Reader.mem_of_mapM items e he
      exact ManagedFields.ordered_of_read read

theorem toJson_ordered {m : Metadata} (h : m.Ordered) : (Payload.toJson m : Json).Ordered := by
  refine .object (Entries.sorted_of_keys ["annotations", "creationTimestamp",
    "deletionGracePeriodSeconds", "deletionTimestamp", "finalizers", "generateName", "generation",
    "labels", "managedFields", "name", "namespace", "ownerReferences", "resourceVersion",
    "selfLink", "uid"] ?_ (by decide +kernel)) ?_
  · simp only [members, List.map_append]
    have one {α : Type} (name : String) (toJson : α → Json) (x : Option α) :=
      Json.keys_optional name toJson x
    exact ((((((((((((((one _ _ _).append (one _ _ _)).append (one _ _ _)).append
      (one _ _ _)).append (one _ _ _)).append (one _ _ _)).append (one _ _ _)).append
      (one _ _ _)).append (one _ _ _)).append (one _ _ _)).append (one _ _ _)).append
      (one _ _ _)).append (one _ _ _)).append (one _ _ _)).append (one _ _ _)
  · simp only [members, List.forall_mem_append, Json.forall_mem_optional, and_assoc]
    have text {x : Option String} : ∀ s ∈ x, (Json.string s).Ordered := fun _ _ => .string _
    have texts {x : Option TextMap} : ∀ t ∈ x, (mapJson t).Ordered :=
      fun t _ => Json.ordered_strings t.sorted
    have word {x : Option Int64} : ∀ n ∈ x, (int64Json n).Ordered := fun _ _ => .number _
    have time {x : Option Timestamp} : ∀ t ∈ x, (timeJson t).Ordered := fun _ _ => .string _
    have finalizers : ∀ ts ∈ m.finalizers, (textsJson ts).Ordered :=
      fun _ _ => Json.ordered_array_map fun _ _ => .string _
    have managers : ∀ entries ∈ m.managedFields,
        (arrayJson ManagedFields.toJson entries).Ordered := fun entries here =>
      Json.ordered_array_map fun e he => ManagedFields.toJson_ordered (h entries here e he)
    have owners : ∀ rs ∈ m.ownerReferences, (arrayJson OwnerReference.toJson rs).Ordered :=
      fun _ _ => Json.ordered_array_map fun r _ => r.toJson_ordered
    exact ⟨texts, time, word, time, finalizers, text, word, texts, managers, text, text, owners,
      text, text, text⟩

end Metadata

/-! ## Objects -/

namespace Object

/-- Every free-form value is ordered, and the other members do not pass for fields. -/
structure Ordered (o : Object) : Prop where
  metadata : ∀ m ∈ o.metadata, m.Ordered
  spec : ∀ v ∈ o.spec, v.Ordered
  status : ∀ v ∈ o.status, v.Ordered
  extra : ∀ e ∈ o.extra.entries, Record.field? fields e.1 = none ∧ e.2.Ordered

theorem ordered_blank : blank.Ordered where
  metadata := by simp [blank]
  spec := by simp [blank]
  status := by simp [blank]
  extra := by simp [blank, SortedMap.empty]

theorem ordered_of_read {d : Doc} {o : Object} (h : Payload.read d = .ok o) : o.Ordered := by
  obtain ⟨members, close, rfl⟩ : ∃ members close, d = .object members close := by
    cases d with
    | object members close => exact ⟨members, close, rfl⟩
    | flawed | null | bool | number | string | array | buried => cases h
  have fills := (Record.fills_of_ofMembers h).1
  constructor
  · refine fills.part_holds (fun x => ∀ m ∈ x, m.Ordered) metadata "metadata"
      rfl (fun _ _ => rfl) ?_ (keepExtra_keeps fun _ _ => rfl) (by simp [blank]) ?_
    · simp [fields, Field.optional, Field.defaulted, Field.keeps_set]
    · rintro _ _ x read m rfl
      rcases Reader.of_optional read with ⟨_, none⟩ | ⟨_, m, read, same⟩
      · cases none
      · obtain rfl := Option.some.inj same
        exact Metadata.ordered_of_read read
  · refine fills.part_holds (fun x => ∀ v ∈ x, v.Ordered) spec "spec"
      rfl (fun _ _ => rfl) ?_ (keepExtra_keeps fun _ _ => rfl) (by simp [blank]) ?_
    · simp [fields, Field.optional, Field.defaulted, Field.keeps_set]
    · exact fun _ _ _ read => Reader.optional_json_ordered read
  · refine fills.part_holds (fun x => ∀ v ∈ x, v.Ordered) status "status"
      rfl (fun _ _ => rfl) ?_ (keepExtra_keeps fun _ _ => rfl) (by simp [blank]) ?_
    · simp [fields, Field.optional, Field.defaulted, Field.keeps_set]
    · exact fun _ _ _ read => Reader.optional_json_ordered read
  · exact extra_of_fills (fun _ => True)
      (fun name v => Record.field? fields name = none ∧ v.Ordered) fills (fun _ _ => trivial)
      fun unknown _ read => ⟨unknown, Reader.json_ordered read⟩

theorem toValue_ordered {o : Object} (h : o.Ordered) : o.toValue.Ordered := by
  have text (name text : String) : ∀ m ∈ textMember name text, m.2.Ordered := by
    unfold textMember
    split <;> simp [Json.Ordered.string]
  have all : ∀ m ∈ o.members, m.2.Ordered := by
    simp only [members, List.forall_mem_append, Json.forall_mem_optional, and_assoc]
    exact ⟨text _ _, text _ _, fun m here => Metadata.toJson_ordered (h.metadata m here), h.spec,
      h.status, fun e he => (h.extra e he).2⟩
  exact .object (Entries.sorted_ofList _) fun m hm => all m (Entries.mem_ofList hm)

end Object

/-! ## States -/

namespace Dependents

def Ordered (deps : Dependents) : Prop := ∀ e ∈ deps.entries, ∀ o ∈ e.2, o.Ordered

theorem ordered_of_read {d : Doc} {deps : Dependents} (h : Payload.read d = .ok deps) :
    deps.Ordered := by
  obtain ⟨ms, close, entries, rfl, read, _, rfl⟩ := Reader.map_eq_ok_iff.1 h
  intro e he o ho
  obtain ⟨_, _, _, _, list⟩ := Reader.mem_of_members read (Entries.mem_ofList he)
  obtain ⟨_, _, _, items, _⟩ := Reader.list_eq_ok_iff.1 list
  obtain ⟨_, _, read⟩ := Reader.mem_of_mapM items o ho
  exact Object.ordered_of_read read

end Dependents

namespace State

/-- The parent and all dependents are ordered. -/
structure Ordered (s : State) : Prop where
  object : s.object.Ordered
  dependents : s.dependents.Ordered

theorem ordered_of_read {d : Doc} {s : State} (h : Payload.read d = .ok s) : s.Ordered := by
  obtain ⟨members, fills, _⟩ := Record.fills_of_read field?_self h
  constructor
  · refine fills.part_holds Object.Ordered object "object" rfl (fun _ _ => rfl) ?_ ignore_keeps
      Object.ordered_blank ?_
    · simp [fields, Field.required, Field.optional, Field.defaulted, Field.keeps_set]
    · exact fun _ _ _ read => Object.ordered_of_read read
  · refine fills.part_holds Dependents.Ordered dependents "dependents" rfl (fun _ _ => rfl) ?_
      ignore_keeps ?_ ?_
    · simp [fields, Field.required, Field.optional, Field.defaulted, Field.keeps_set]
    · simp [Dependents.Ordered, blank, SortedMap.empty]
    · exact fun _ _ _ read => Dependents.ordered_of_read read

theorem ordered_of_decode {text : Bytes} {s : State} (h : Payload.decode text = .ok s) :
    s.Ordered :=
  ordered_of_read (Payload.read_of_decode h)

end State

end ControllerHooks
