import ControllerHooks.Proofs.Admission.FieldRules
import ControllerHooks.Proofs.Codec.Object

/-!
# A client's document and its object

Rules are planned on the object that was read from a document, which drops nulls, empty texts and
unknown metadata, and applied to the document itself.

* `Object.ofValue_eq_ok_iff`: when a document is read as an object.
* `Object.memberOrNull_kept`, `Object.agree_annotation`: the object's own document holds the same
  beside the envelope, and along the path of an annotation.
* `Metadata.restated`, `Object.text_kept`: what it holds of the rest.
* `Object.ofValue_of_envelope`, `Object.ofValue_fill_annotation`: a document stays readable with
  anything beside its envelope, and when an annotation is filled in.
-/

namespace ControllerHooks

open Record (Fills)
open FieldRule (Agree)
open Json (memberOrNull fillAt)

theorem Entries.find?_optional {α : Type} {name key : String} {toJson : α → Json} {x : Option α} :
    find? key (Json.optional name toJson x) = if name = key then x.map toJson else none := by
  cases x <;> simp [Json.optional, find?]

/-! ## Fields -/

section
variable {α ρ : Type} {fields : List (Field ρ)}
  {other : ρ → String → Doc → Except DecodeError ρ} {key : String} {required : Bool}
  {read : Reader α} {origin : Origin} {members : List (String × Json)} {blank r : ρ}

/-- A field holds what the member with its name says, and is left blank without one. -/
theorem Record.Fills.get_set {put : ρ → α → ρ} {part : ρ → α}
    (h : Fills fields other blank (Doc.ofMembers origin members) r)
    (distinct : (members.map Prod.fst).Nodup)
    (known : field? fields key = some ⟨key, required, Field.set read put⟩)
    (own : ∀ r x, part (put r x) = x) (fill : ∀ f ∈ fields, f.name ≠ key → f.Keeps part)
    (keep : ∀ {r name d next}, other r name d = .ok next → part next = part r) :
    Entries.find? key members = none ∧ part r = part blank ∨
      ∃ v, Entries.find? key members = some v ∧ read (Doc.ofJson origin v) = .ok (part r) := by
  have tells {s : ρ} {d : Doc} {next : ρ} (filled : Field.set read put s d = .ok next) :
      read d = .ok (part next) := by
    obtain ⟨x, read, rfl⟩ := map_eq_ok.1 filled
    rw [own, read]
  rcases h.get part (fun d x => read d = .ok x) known tells fill keep with
    ⟨absent, same⟩ | ⟨d, member, told⟩
  · refine .inl ⟨Entries.find?_eq_none_iff.2 fun e he here => ?_, same⟩
    exact absent _ (Doc.mem_ofMembers.2 ⟨e, he, rfl⟩) (by rw [here])
  · obtain ⟨⟨k, v⟩, he, same⟩ := Doc.mem_ofMembers.1 member
    obtain ⟨rfl, rfl⟩ : key = k ∧ d = Doc.ofJson origin v := by simpa using same
    exact .inr ⟨v, Entries.find?_eq_of_nodup distinct he, told⟩

/-- A text is empty without a member, and otherwise stands there. -/
theorem Record.Fills.get_text {put : ρ → String → ρ} {part : ρ → String}
    (h : Fills fields other blank (Doc.ofMembers origin members) r)
    (distinct : (members.map Prod.fst).Nodup)
    (known : field? fields key = some ⟨key, required, Field.set Reader.string put⟩)
    (own : ∀ r x, part (put r x) = x) (start : part blank = "")
    (fill : ∀ f ∈ fields, f.name ≠ key → f.Keeps part)
    (keep : ∀ {r name d next}, other r name d = .ok next → part next = part r) :
    Entries.find? key members = none ∧ part r = "" ∨
      Entries.find? key members = some (.string (part r)) := by
  rcases h.get_set distinct known own fill keep with ⟨none, same⟩ | ⟨v, found, told⟩
  · exact .inl ⟨none, same.trans start⟩
  · refine .inr (found.trans (congrArg some ?_))
    exact Doc.ofJson_eq_string_iff.1 (Reader.string_eq_ok_iff.1 told)

/-- An optional field holds what the member with its name says, if there is one. -/
theorem Record.Fills.get_optional {put : ρ → Option α → ρ} {part : ρ → Option α}
    (h : Fills fields other blank (Doc.ofMembers origin members) r)
    (distinct : (members.map Prod.fst).Nodup)
    (known : field? fields key = some (.optional key read put))
    (own : ∀ r x, part (put r x) = x) (start : part blank = none)
    (fill : ∀ f ∈ fields, f.name ≠ key → f.Keeps part)
    (keep : ∀ {r name d next}, other r name d = .ok next → part next = part r) :
    Reader.optional read (Doc.ofJson origin (memberOrNull key members)) = .ok (part r) := by
  rcases h.get_set distinct known own fill keep with ⟨none, same⟩ | ⟨v, found, told⟩
  · simp [memberOrNull, none, same, start, Doc.ofJson, Reader.optional]
  · simpa [memberOrNull, found] using told

end

/-! ## What is restated -/

/-- How the document of an object has a value of the client's: as it stands, as another text, or as
a list with as many items. -/
inductive Json.Restated : (given : Json) → (written : Json) → Prop
  | same (v : Json) : Restated v v
  | text (s t : String) : Restated (.string s) (.string t)
  | items {xs ys : List Json} (length : ys.length = xs.length) : Restated (.array xs) (.array ys)

/-- What is read and written again is restated. -/
def Reader.Restates {α : Type} (read : Reader α) (toJson : α → Json) : Prop :=
  ∀ {v : Json} {x : Option α}, v.Ordered →
    Reader.optional read (Doc.ofJson .memory v) = .ok x →
    v.Restated ((x.map toJson).getD .null)

theorem Reader.restates_of_read {α : Type} {read : Reader α} {toJson : α → Json}
    (present : ∀ {v x}, read (Doc.ofJson .memory v) = .ok x → v.Restated (toJson x)) :
    read.Restates toJson := by
  intro v x _ h
  rcases Reader.of_optional h with ⟨null, rfl⟩ | ⟨_, x, told, rfl⟩
  · rw [Doc.ofJson_eq_null_iff.1 null]
    exact .same .null
  · exact present told

/-! ## Metadata -/

namespace Metadata

theorem keeps_annotations : ∀ f ∈ fields, f.name ≠ "annotations" → f.Keeps annotations := by
  simp [fields, Field.optional, Field.keeps_set]

theorem isSteady : ∀ f ∈ fields, f.IsSteady := by
  simp [fields, Field.optional, Field.isSteady_set]

theorem steady : Fills.Steady fields Record.ignore := Record.steady_ignore isSteady

theorem annotations_of_fills {members : List (String × Json)} {m : Metadata}
    (sorted : Entries.Sorted members)
    (h : Fills fields Record.ignore blank (Doc.ofMembers .memory members) m) :
    Reader.optional Reader.textMap (Doc.ofJson .memory (memberOrNull "annotations" members)) =
      .ok m.annotations :=
  h.get_optional sorted.keys_nodup rfl (fun _ _ => rfl) rfl keeps_annotations Record.ignore_keeps

/-- The members of a map of texts are its entries. -/
theorem members_of_texts {origin : Origin} {members : List (String × Json)}
    {entries : List (String × String)}
    (h : Reader.members .ok Reader.string (Doc.ofMembers origin members) = .ok entries) :
    members = entries.map fun e => (e.1, .string e.2) := by
  induction members generalizing entries with
  | nil => cases h; rfl
  | cons m rest ih =>
    obtain ⟨e, later, head, tail, rfl⟩ := mapM_eq_ok_cons.1 h
    simp only [bind_eq_ok, Reader.readKey_eq_ok, Reader.string_eq_ok_iff, pure_eq_ok_value,
      Except.ok.injEq] at head
    obtain ⟨name, named, _, rfl, s, text, rfl⟩ := head
    obtain ⟨k, v⟩ := m
    obtain rfl : k = name := Key.text.inj named
    obtain rfl := Doc.ofJson_eq_string_iff.1 text
    rw [List.map_cons, ← ih tail]

/-- A map of texts is written as it was read. -/
theorem mapJson_of_textMap {members : List (String × Json)} {t : TextMap} {origin : Origin}
    (sorted : Entries.Sorted members)
    (h : Reader.textMap (Doc.ofJson origin (.object members)) = .ok t) :
    mapJson t = .object members := by
  obtain ⟨ms, close, entries, whole, read, _, rfl⟩ := Reader.map_eq_ok_iff.1 h
  obtain ⟨_, same, rfl⟩ := Doc.ofJson_eq_object whole
  obtain rfl := Json.object.inj same
  obtain rfl := members_of_texts read
  have entries_sorted : Entries.Sorted entries := by
    simpa [Entries.Sorted, List.pairwise_map] using sorted
  simp [mapJson, SortedMap.ofList, Entries.ofList_eq_self entries_sorted]

theorem memberOrNull_annotations (m : Metadata) :
    memberOrNull "annotations" m.members = (m.annotations.map mapJson).getD .null := by
  simp [memberOrNull, members, Entries.find?_append, Entries.find?_optional]

/-- A map of texts is kept as it stands, a missing one as null. -/
theorem texts_kept {v : Json} {x : Option TextMap} (ordered : v.Ordered)
    (read : Reader.optional Reader.textMap (Doc.ofJson .memory v) = .ok x) :
    (x.map mapJson).getD .null = v := by
  rcases Reader.of_optional read with ⟨null, rfl⟩ | ⟨_, t, texts, rfl⟩
  · exact (Doc.ofJson_eq_null_iff.1 null).symm
  · cases v with
    | object entries => exact mapJson_of_textMap ordered.sorted texts
    | null | bool | number | string | array =>
      simp [Doc.ofJson, Reader.textMap, Reader.map] at texts

/-- The annotations are written as they were read, whatever else is dropped. -/
theorem annotations_kept {members : List (String × Json)} {m : Metadata}
    (ordered : (Json.object members).Ordered)
    (h : Fills fields Record.ignore blank (Doc.ofMembers .memory members) m) :
    memberOrNull "annotations" m.members = memberOrNull "annotations" members := by
  rw [memberOrNull_annotations]
  exact texts_kept (Json.ordered_memberOrNull ordered _) (annotations_of_fills ordered.sorted h)

theorem labels_kept {members : List (String × Json)} {m : Metadata}
    (ordered : (Json.object members).Ordered)
    (h : Fills fields Record.ignore blank (Doc.ofMembers .memory members) m) :
    memberOrNull "labels" m.members = memberOrNull "labels" members := by
  have written : memberOrNull "labels" m.members = (m.labels.map mapJson).getD .null := by
    simp [memberOrNull, Metadata.members, Entries.find?_append, Entries.find?_optional]
  rw [written]
  refine texts_kept (Json.ordered_memberOrNull ordered _) ?_
  refine h.get_optional ordered.sorted.keys_nodup rfl (fun _ _ => rfl) rfl ?_ Record.ignore_keeps
  simp [fields, Field.optional, Field.keeps_set]

theorem restates_textMap : Reader.Restates Reader.textMap mapJson := by
  intro v x ordered h
  rw [texts_kept ordered h]
  exact .same v

theorem restates_text : Reader.Restates Reader.string Json.string := by
  refine Reader.restates_of_read fun {v s} told => ?_
  rw [Doc.ofJson_eq_string_iff.1 (Reader.string_eq_ok_iff.1 told)]
  exact .same _

theorem restates_time : Reader.Restates Reader.timestamp timeJson := by
  refine Reader.restates_of_read fun {v t} told => ?_
  cases v with
  | string s => exact .text s t.text
  | null | bool | number | array | object => simp [Doc.ofJson, Reader.timestamp] at told

theorem restates_int64 : Reader.Restates Reader.int64 int64Json := by
  refine Reader.restates_of_read fun {v n} told => ?_
  obtain ⟨i, number, rfl⟩ := map_eq_ok.1 told
  cases v with
  | number value =>
    cases value with
    | int j =>
      simp only [Doc.ofJson, Reader.integer] at number
      split at number
      · rename_i range
        obtain rfl := Except.ok.inj number
        have word : (Int64.ofInt j).toInt = j := Int64.toInt_ofInt_of_le range.1 range.2
        rw [int64Json, word]
        exact .same _
      · cases number
    | real => simp [Doc.ofJson, Reader.integer] at number
  | null | bool | string | array | object => simp [Doc.ofJson, Reader.integer] at number

theorem restates_array {α : Type} (read : Reader α) (toJson : α → Json) :
    Reader.Restates (Reader.list read) (arrayJson toJson) := by
  refine Reader.restates_of_read fun {v xs} told => ?_
  obtain ⟨items, close, whole, each, _⟩ := Reader.list_eq_ok_iff.1 told
  cases v with
  | array given =>
    obtain rfl : Doc.ofItems .memory given = items := (Doc.array.inj whole).1
    refine .items ?_
    rw [List.length_map, Reader.length_of_mapM each, Doc.length_ofItems]
  | null | bool | number | string | object => simp [Doc.ofJson] at whole

theorem restates_texts : Reader.Restates (Reader.list Reader.string) textsJson :=
  restates_array Reader.string .string

/-- Every member that is known is restated. -/
theorem restated {given : List (String × Json)} {m : Metadata}
    (ordered : (Json.object given).Ordered)
    (h : Fills fields Record.ignore blank (Doc.ofMembers .memory given) m) :
    ∀ f ∈ fields, (memberOrNull f.name given).Restated (memberOrNull f.name m.members) := by
  have kept {α : Type} {key : String} {read : Reader α} {put : Metadata → Option α → Metadata}
      {toJson : α → Json} (restates : read.Restates toJson) (part : Metadata → Option α)
      (known : Record.field? fields key = some (.optional key read put))
      (own : ∀ r x, part (put r x) = x) (start : part blank = none)
      (fill : ∀ f ∈ fields, f.name ≠ key → f.Keeps part)
      (written : memberOrNull key m.members = ((part m).map toJson).getD .null) :
      (memberOrNull key given).Restated (memberOrNull key m.members) := by
    rw [written]
    exact restates (Json.ordered_memberOrNull ordered key)
      (h.get_optional ordered.sorted.keys_nodup known own start fill Record.ignore_keeps)
  simp only [fields, List.forall_mem_cons, List.not_mem_nil, false_implies, implies_true, and_true]
  refine ⟨kept restates_textMap annotations rfl (fun _ _ => rfl) rfl ?_ ?_,
    kept restates_time creationTimestamp rfl (fun _ _ => rfl) rfl ?_ ?_,
    kept restates_int64 deletionGracePeriodSeconds rfl (fun _ _ => rfl) rfl ?_ ?_,
    kept restates_time deletionTimestamp rfl (fun _ _ => rfl) rfl ?_ ?_,
    kept restates_texts finalizers rfl (fun _ _ => rfl) rfl ?_ ?_,
    kept restates_text generateName rfl (fun _ _ => rfl) rfl ?_ ?_,
    kept restates_int64 generation rfl (fun _ _ => rfl) rfl ?_ ?_,
    kept restates_textMap labels rfl (fun _ _ => rfl) rfl ?_ ?_,
    kept (restates_array _ ManagedFields.toJson) managedFields rfl (fun _ _ => rfl) rfl ?_ ?_,
    kept restates_text name rfl (fun _ _ => rfl) rfl ?_ ?_,
    kept restates_text inNamespace rfl (fun _ _ => rfl) rfl ?_ ?_,
    kept (restates_array _ OwnerReference.toJson) ownerReferences rfl (fun _ _ => rfl) rfl ?_ ?_,
    kept restates_text resourceVersion rfl (fun _ _ => rfl) rfl ?_ ?_,
    kept restates_text selfLink rfl (fun _ _ => rfl) rfl ?_ ?_,
    kept restates_text uid rfl (fun _ _ => rfl) rfl ?_ ?_⟩
  all_goals
    simp [fields, Field.optional, Field.keeps_set, memberOrNull, members, Entries.find?_append,
      Entries.find?_optional]

/-- Nothing is written that is not known. -/
theorem memberOrNull_unknown {m : Metadata} {key : String}
    (unknown : Record.field? fields key = none) : memberOrNull key m.members = .null := by
  have other : ∀ f ∈ fields, f.name ≠ key := by
    simpa [Record.field?] using unknown
  simp only [fields, Field.optional, List.forall_mem_cons] at other
  simp [memberOrNull, members, Entries.find?_append, Entries.find?_optional, other]

/-- Texts and one more text make a map of texts. -/
theorem textMap_insert {members : List (String × Json)} {origin : Origin} {key text : String}
    (texts : ∀ e ∈ members, ∃ s, e.2 = .string s) :
    ∃ t, Reader.textMap (Doc.ofJson origin
      (.object (Entries.insert key (.string text) members))) = .ok t := by
  have all : ∀ e ∈ Entries.insert key (.string text) members, ∃ s, e.2 = .string s := by
    intro e he
    rcases Entries.mem_insert he with rfl | he
    · exact ⟨text, rfl⟩
    · exact texts e he
  generalize Entries.insert key (.string text) members = members at all
  have entries : ∃ entries, Reader.members .ok Reader.string (Doc.ofMembers origin members) =
      .ok entries := by
    induction members with
    | nil => exact ⟨[], rfl⟩
    | cons e rest ih =>
      obtain ⟨⟨s, value⟩, tail⟩ := List.forall_mem_cons.1 all
      obtain ⟨entries, later⟩ := ih tail
      have head : Reader.string (Doc.ofJson origin e.2) = .ok s := by rw [value]; rfl
      refine ⟨(e.1, s) :: entries, mapM_eq_ok_cons.2 ⟨_, _, ?_, later, rfl⟩⟩
      simp [Reader.wellFormed, Key.read, head]
  obtain ⟨entries, read⟩ := entries
  exact ⟨_, Reader.map_eq_ok_iff.2 ⟨_, _, entries, rfl, read, rfl, rfl⟩⟩

theorem texts_of_textMap {members : List (String × Json)} {t : TextMap} {origin : Origin}
    (h : Reader.textMap (Doc.ofJson origin (.object members)) = .ok t) :
    ∀ e ∈ members, ∃ s, e.2 = .string s := by
  obtain ⟨ms, close, entries, whole, read, _⟩ := Reader.map_eq_ok_iff.1 h
  obtain ⟨_, same, rfl⟩ := Doc.ofJson_eq_object whole
  obtain rfl := Json.object.inj same
  rw [members_of_texts read]
  intro e he
  obtain ⟨entry, _, rfl⟩ := List.mem_map.1 he
  exact ⟨entry.2, rfl⟩

/-- Annotations stay readable when one is set, also where none were. -/
theorem textMap_fill {v : Json} {t : Option TextMap}
    (h : Reader.optional Reader.textMap (Doc.ofJson .memory v) = .ok t) (key text : String) :
    ∃ next, Reader.textMap (Doc.ofJson .memory (fillAt (.string text) [key] v)) = .ok next := by
  rcases Reader.of_optional h with ⟨null, _⟩ | ⟨_, t, texts, _⟩
  · rw [Doc.ofJson_eq_null_iff.1 null]
    have none : ∀ e ∈ ([] : List (String × Json)), ∃ s, e.2 = .string s := by simp
    exact textMap_insert none
  · cases v with
    | object members => exact textMap_insert (texts_of_textMap texts)
    | null | bool | number | string | array =>
      simp [Doc.ofJson, Reader.textMap, Reader.map] at texts

/-- Metadata stay readable when a member that can be read is set. -/
theorem read_insert {members : List (String × Json)} {m : Metadata} {key : String} {v : Json}
    (h : Fills fields Record.ignore blank (Doc.ofMembers .memory members) m)
    (readable : ∃ r last, Fills fields Record.ignore r (Doc.ofMembers .memory [(key, v)]) last) :
    ∃ next : Metadata, Payload.read (Doc.ofJson .memory
      (.object (Entries.insert key v members))) = .ok next := by
  have all : ∀ e ∈ Doc.ofMembers .memory (Entries.insert key v members),
      ∃ r last, Fills fields Record.ignore r [e] last := by
    intro e he
    obtain ⟨e, inside, rfl⟩ := Doc.mem_ofMembers.1 he
    rcases Entries.mem_insert inside with rfl | inside
    · exact readable
    · exact h.members _ (Doc.mem_ofMembers.2 ⟨e, inside, rfl⟩)
  obtain ⟨next, fills⟩ := Fills.of_members steady all blank
  exact ⟨next, Record.readLoose_eq_ok_iff.2 ⟨_, _, rfl, fills, rfl⟩⟩

/-- Metadata stay readable when an annotation is set, also where none were. -/
theorem read_fill_annotation {v : Json} {m : Option Metadata} (ordered : v.Ordered)
    (h : Reader.optional Payload.read (Doc.ofJson .memory v) = .ok m) (key text : String) :
    ∃ next : Metadata, Payload.read (Doc.ofJson .memory
      (fillAt (.string text) ["annotations", key] v)) = .ok next := by
  have set {members : List (String × Json)} {m : Metadata} (ordered : (Json.object members).Ordered)
      (fills : Fills fields Record.ignore blank (Doc.ofMembers .memory members) m) :
      ∃ next : Metadata, Payload.read (Doc.ofJson .memory
        (fillAt (.string text) ["annotations", key] (.object members))) = .ok next := by
    obtain ⟨t, texts⟩ := textMap_fill (annotations_of_fills ordered.sorted fills) key text
    exact read_insert fills ⟨blank, _, .present rfl (Json.fillAt_cons_ne_null _ _ _ _) texts⟩
  rcases Reader.of_optional h with ⟨null, _⟩ | ⟨_, m, read, _⟩
  · rw [Doc.ofJson_eq_null_iff.1 null]
    exact set (.object .nil (by simp)) (.nil blank)
  · obtain ⟨ms, close, whole, fills, _⟩ := Record.readLoose_eq_ok_iff.1 read
    obtain ⟨members, rfl, rfl⟩ := Doc.ofJson_eq_object whole
    exact set ordered fills

end Metadata

/-! ## Objects -/

namespace Object

theorem isSteady : ∀ f ∈ fields, f.IsSteady := by
  simp [fields, Field.optional, Field.defaulted, Field.isSteady_set]

theorem steady : Fills.Steady fields keepExtra := by
  apply Fills.steady_of_fields isSteady
  intro r next name d kept s
  obtain ⟨v, read, _⟩ := keepExtra_eq_ok_iff.1 kept
  exact ⟨_, keepExtra_eq_ok_iff.2 ⟨v, read, rfl⟩⟩

theorem ofValue_eq_ok_iff {members : List (String × Json)} (sorted : Entries.Sorted members)
    {o : Object} :
    ofValue (.object members) = .ok o ↔
      Fills fields keepExtra blank (Doc.ofMembers .memory members) o := by
  rw [ofValue, mapError_eq_ok]
  constructor
  · exact fun read => (Record.fills_of_ofMembers read).1
  · intro fills
    refine Record.ofMembers_of_fills fills (Doc.nodup_ofMembers sorted.keys_nodup) ?_ rfl
    simp [fields, Field.optional, Field.defaulted]

theorem object_of_ofValue {d : Json} {o : Object} (h : ofValue d = .ok o) :
    ∃ members, d = .object members := by
  cases d with
  | object members => exact ⟨members, rfl⟩
  | null | bool | number | string | array => cases h

section
variable {members : List (String × Json)} {o : Object} (sorted : Entries.Sorted members)
  (h : Fills fields keepExtra blank (Doc.ofMembers .memory members) o)
include sorted h

theorem apiVersion_of_fills :
    Entries.find? "apiVersion" members = none ∧ o.apiVersion = "" ∨
      Entries.find? "apiVersion" members = some (.string o.apiVersion) := by
  refine h.get_text sorted.keys_nodup rfl (fun _ _ => rfl) rfl ?_ (keepExtra_keeps fun _ _ => rfl)
  simp [fields, Field.optional, Field.defaulted, Field.keeps_set]

theorem kind_of_fills :
    Entries.find? "kind" members = none ∧ o.kind = "" ∨
      Entries.find? "kind" members = some (.string o.kind) := by
  refine h.get_text sorted.keys_nodup rfl (fun _ _ => rfl) rfl ?_ (keepExtra_keeps fun _ _ => rfl)
  simp [fields, Field.optional, Field.defaulted, Field.keeps_set]

theorem spec_of_fills :
    Reader.optional Reader.json (Doc.ofJson .memory (memberOrNull "spec" members)) =
      .ok o.spec := by
  refine h.get_optional sorted.keys_nodup rfl (fun _ _ => rfl) rfl ?_
    (keepExtra_keeps fun _ _ => rfl)
  simp [fields, Field.optional, Field.defaulted, Field.keeps_set]

theorem status_of_fills :
    Reader.optional Reader.json (Doc.ofJson .memory (memberOrNull "status" members)) =
      .ok o.status := by
  refine h.get_optional sorted.keys_nodup rfl (fun _ _ => rfl) rfl ?_
    (keepExtra_keeps fun _ _ => rfl)
  simp [fields, Field.optional, Field.defaulted, Field.keeps_set]

theorem metadata_of_fills :
    Reader.optional Payload.read (Doc.ofJson .memory (memberOrNull "metadata" members)) =
      .ok o.metadata := by
  refine h.get_optional sorted.keys_nodup rfl (fun _ _ => rfl) rfl ?_
    (keepExtra_keeps fun _ _ => rfl)
  simp [fields, Field.optional, Field.defaulted, Field.keeps_set]

end

/-! ### The document of an object -/

theorem reverse_optional {α : Type} {name : String} {toJson : α → Json} {x : Option α} :
    (Json.optional name toJson x).reverse = Json.optional name toJson x := by
  cases x <;> rfl

theorem reverse_textMember {name text : String} :
    (textMember name text).reverse = textMember name text := by
  by_cases h : text = "" <;> simp [textMember, h]

theorem find?_textMember {key name text : String} :
    Entries.find? key (textMember name text) =
      if name = key ∧ text ≠ "" then some (.string text) else none := by
  by_cases empty : text = "" <;> simp [textMember, empty, Entries.find?]

/-- Where a member of the document stands in the object. -/
theorem find?_members (o : Object) (key : String) :
    Entries.find? key (Entries.ofList o.members) =
      (o.extra.get? key).or
        ((if "status" = key then o.status else none).or
          ((if "spec" = key then o.spec else none).or
            ((if "metadata" = key then o.metadata.map Payload.toJson else none).or
              ((if "kind" = key ∧ o.kind ≠ "" then some (.string o.kind) else none).or
                (if "apiVersion" = key ∧ o.apiVersion ≠ "" then some (.string o.apiVersion)
                  else none))))) := by
  rw [Entries.find?_ofList]
  simp [members, reverse_optional, reverse_textMember, Entries.find?_append, Entries.find?_optional,
    find?_textMember, o.extra.sorted.find?_reverse, SortedMap.get?]

section
variable {o : Object} (unknown : ∀ e ∈ o.extra.entries, Record.field? fields e.1 = none)
include unknown

theorem extra_of_known {key : String} {f : Field Object}
    (known : Record.field? fields key = some f) : o.extra.get? key = none := by
  apply Entries.find?_eq_none_iff.2
  intro e he here
  have other := unknown e he
  rw [here, known] at other
  cases other

theorem find?_apiVersion : Entries.find? "apiVersion" (Entries.ofList o.members) =
    if o.apiVersion ≠ "" then some (.string o.apiVersion) else none := by
  have known : Record.field? fields "apiVersion" = some _ := rfl
  simp [find?_members, extra_of_known unknown known]

theorem find?_kind : Entries.find? "kind" (Entries.ofList o.members) =
    if o.kind ≠ "" then some (.string o.kind) else none := by
  have known : Record.field? fields "kind" = some _ := rfl
  simp [find?_members, extra_of_known unknown known]

theorem find?_metadata : Entries.find? "metadata" (Entries.ofList o.members) =
    o.metadata.map Payload.toJson := by
  have known : Record.field? fields "metadata" = some _ := rfl
  simp [find?_members, extra_of_known unknown known]

theorem find?_spec : Entries.find? "spec" (Entries.ofList o.members) = o.spec := by
  have known : Record.field? fields "spec" = some _ := rfl
  simp [find?_members, extra_of_known unknown known]

theorem find?_status : Entries.find? "status" (Entries.ofList o.members) = o.status := by
  have known : Record.field? fields "status" = some _ := rfl
  simp [find?_members, extra_of_known unknown known]

theorem memberOrNull_apiVersion : memberOrNull "apiVersion" (Entries.ofList o.members) =
    if o.apiVersion = "" then .null else .string o.apiVersion := by
  rw [memberOrNull, find?_apiVersion unknown]
  by_cases empty : o.apiVersion = "" <;> simp [empty]

theorem memberOrNull_kind : memberOrNull "kind" (Entries.ofList o.members) =
    if o.kind = "" then .null else .string o.kind := by
  rw [memberOrNull, find?_kind unknown]
  by_cases empty : o.kind = "" <;> simp [empty]

theorem memberOrNull_spec :
    memberOrNull "spec" (Entries.ofList o.members) = o.spec.getD .null := by
  rw [memberOrNull, find?_spec unknown]

theorem memberOrNull_metadata :
    memberOrNull "metadata" (Entries.ofList o.members) =
      (o.metadata.map Payload.toJson).getD .null := by
  rw [memberOrNull, find?_metadata unknown]

end

/-- What is no field of the object comes from its other members. -/
theorem find?_of_unknown {o : Object} {key : String} (unknown : Record.field? fields key = none) :
    Entries.find? key (Entries.ofList o.members) = o.extra.get? key := by
  have other : ∀ f ∈ fields, f.name ≠ key := by
    simpa [Record.field?] using unknown
  simp only [fields, Field.optional, Field.defaulted, List.forall_mem_cons] at other
  simp [find?_members, other]

/-- The tokens under which an object's document is not the client's own. -/
def envelope : List String := ["apiVersion", "kind", "metadata"]

theorem field?_of_free {token : String} (free : token ∉ envelope) (spec : token ≠ "spec")
    (status : token ≠ "status") : Record.field? fields token = none := by
  obtain ⟨apiVersion, kind, metadata⟩ : "apiVersion" ≠ token ∧ "kind" ≠ token ∧
      "metadata" ≠ token := by simpa [envelope, eq_comm] using free
  simp [Record.field?, fields, Field.optional, Field.defaulted, apiVersion, kind, metadata,
    spec.symm, status.symm]

section
variable {members : List (String × Json)} {o : Object} (ordered : (Json.object members).Ordered)
include ordered

/-- A free-form value is kept as it stands, a missing one as null. -/
theorem json_kept {key : String} {x : Option Json}
    (read : Reader.optional Reader.json (Doc.ofJson .memory (memberOrNull key members)) = .ok x) :
    memberOrNull key members = x.getD .null := by
  rcases Reader.of_optional read with ⟨null, rfl⟩ | ⟨_, v, told, rfl⟩
  · exact Doc.ofJson_eq_null_iff.1 null
  · rw [Reader.json_ofJson (Json.ordered_memberOrNull ordered key)] at told
    exact Except.ok.inj told

theorem spec_kept (h : Fills fields keepExtra blank (Doc.ofMembers .memory members) o) :
    memberOrNull "spec" members = o.spec.getD .null :=
  json_kept ordered (spec_of_fills ordered.sorted h)

/-- A member that is no field is kept as it stands. -/
theorem extra_kept {start : Object}
    (h : Fills fields keepExtra start (Doc.ofMembers .memory members) o) {token : String}
    (unknown : Record.field? fields token = none) :
    o.extra.get? token = (Entries.find? token members).or (start.extra.get? token) := by
  have keepsExtra : ∀ f ∈ fields, f.Keeps extra := by
    simp [fields, Field.optional, Field.defaulted, Field.keeps_set]
  induction members generalizing start with
  | nil =>
    cases h
    rfl
  | cons m rest ih =>
    obtain ⟨name, x⟩ := m
    obtain ⟨above, sorted⟩ := List.pairwise_cons.1 ordered.sorted
    obtain ⟨head, tail⟩ := List.forall_mem_cons.1 ordered.members
    obtain ⟨_, next, same, placed, later⟩ := Record.Fills.cons_iff.1 h
    cases same
    rw [ih (.object sorted tail) later]
    by_cases here : name = token
    · subst here
      rw [Record.place_unknown unknown] at placed
      obtain ⟨v, read, rfl⟩ := keepExtra_eq_ok_iff.1 placed
      obtain rfl : x = v := Except.ok.inj ((Reader.json_ofJson head _).symm.trans read)
      have once : Entries.find? name rest = none := by
        apply Entries.find?_eq_none_iff.2
        intro e he same
        simpa [same] using above e he
      simp [once, Entries.find?, SortedMap.get?_insert]
    · have other : next.extra.get? token = start.extra.get? token := by
        cases known : Record.field? fields name with
        | some f =>
          rw [Record.place_known known] at placed
          rw [keepsExtra f (Record.field?_mem known).1 _ _ _ placed]
        | none =>
          rw [Record.place_unknown known] at placed
          obtain ⟨v, _, rfl⟩ := keepExtra_eq_ok_iff.1 placed
          simp [SortedMap.get?_insert, Ne.symm here]
      rw [other]
      simp [Entries.find?, here]

/-- Beside the envelope the object's document holds what the client's holds. -/
theorem memberOrNull_kept (h : Fills fields keepExtra blank (Doc.ofMembers .memory members) o)
    {token : String} (free : token ∉ envelope) :
    memberOrNull token (Entries.ofList o.members) = memberOrNull token members := by
  have unknown := extra_unknown h
  by_cases spec : token = "spec"
  · rw [spec, memberOrNull_spec unknown, spec_kept ordered h]
  by_cases status : token = "status"
  · rw [status, memberOrNull, find?_status unknown,
      json_kept ordered (status_of_fills ordered.sorted h)]
  have other := field?_of_free free spec status
  rw [memberOrNull, find?_of_unknown other, extra_kept ordered h other]
  simp [memberOrNull, SortedMap.get?, blank, SortedMap.empty, Entries.find?]

/-- The texts of the envelope are kept, unless they are empty. -/
theorem text_kept (h : Fills fields keepExtra blank (Doc.ofMembers .memory members) o)
    {token : String} (text : token = "apiVersion" ∨ token = "kind") :
    memberOrNull token members = .null ∧ memberOrNull token (Entries.ofList o.members) = .null ∨
      ∃ s, memberOrNull token members = .string s ∧
        memberOrNull token (Entries.ofList o.members) = if s = "" then .null else .string s := by
  have unknown := extra_unknown h
  rcases text with rfl | rfl
  · rw [memberOrNull_apiVersion unknown, memberOrNull]
    rcases apiVersion_of_fills ordered.sorted h with ⟨none, empty⟩ | stands
    · exact .inl ⟨by rw [none, Option.getD_none], if_pos empty⟩
    · exact .inr ⟨_, by rw [stands, Option.getD_some], rfl⟩
  · rw [memberOrNull_kind unknown, memberOrNull]
    rcases kind_of_fills ordered.sorted h with ⟨none, empty⟩ | stands
    · exact .inl ⟨by rw [none, Option.getD_none], if_pos empty⟩
    · exact .inr ⟨_, by rw [stands, Option.getD_some], rfl⟩

/-- The metadata are read from an object, if there are any. -/
theorem metadata_inside (h : Fills fields keepExtra blank (Doc.ofMembers .memory members) o) :
    memberOrNull "metadata" members = .null ∧ o.metadata = none ∨
      ∃ inside m, memberOrNull "metadata" members = .object inside ∧
        (Json.object inside).Ordered ∧
        Fills Metadata.fields Record.ignore .blank (Doc.ofMembers .memory inside) m ∧
        o.metadata = some m := by
  rcases Reader.of_optional (metadata_of_fills ordered.sorted h) with
    ⟨null, none⟩ | ⟨_, m, read, some⟩
  · exact .inl ⟨Doc.ofJson_eq_null_iff.1 null, none⟩
  · obtain ⟨_, _, whole, fills, _⟩ := Record.readLoose_eq_ok_iff.1 read
    obtain ⟨inside, value, rfl⟩ := Doc.ofJson_eq_object whole
    have inner := Json.ordered_memberOrNull ordered "metadata"
    rw [value] at inner
    exact .inr ⟨inside, m, value, inner, fills, some⟩

end

/-- Below `spec` the object's document holds what the client's holds. -/
theorem agree_spec {d : Json} {o : Object} (ordered : d.Ordered) (h : ofValue d = .ok o)
    (path : List String) : Agree ("spec" :: path) d o.toValue := by
  obtain ⟨members, rfl⟩ := object_of_ofValue h
  have fills := (ofValue_eq_ok_iff ordered.sorted).1 h
  refine .member ?_
  rw [memberOrNull_kept ordered fills (by decide)]
  exact .same _ _

theorem agree_annotation {d : Json} {o : Object} (ordered : d.Ordered) (h : ofValue d = .ok o)
    (key : String) : Agree ["metadata", "annotations", key] d o.toValue := by
  obtain ⟨members, rfl⟩ := object_of_ofValue h
  have fills := (ofValue_eq_ok_iff ordered.sorted).1 h
  refine .member ?_
  rw [memberOrNull_metadata (extra_unknown fills)]
  rcases metadata_inside ordered fills with ⟨null, none⟩ | ⟨inside, m, value, inner, read, some⟩
  · rw [none, null]
    exact .same _ _
  · rw [some, value]
    refine .member ?_
    rw [Metadata.annotations_kept inner read]
    exact .same _ _

/-! ### Filled documents -/

/-- A document stays readable when a member that can be read is set. -/
theorem ofValue_insert {members : List (String × Json)} {o : Object} {key : String} {v : Json}
    (sorted : Entries.Sorted members)
    (h : Fills fields keepExtra blank (Doc.ofMembers .memory members) o)
    (readable : ∃ r last, Fills fields keepExtra r (Doc.ofMembers .memory [(key, v)]) last) :
    ∃ next, ofValue (.object (Entries.insert key v members)) = .ok next := by
  have all : ∀ e ∈ Doc.ofMembers .memory (Entries.insert key v members),
      ∃ r last, Fills fields keepExtra r [e] last := by
    intro e he
    obtain ⟨e, inside, rfl⟩ := Doc.mem_ofMembers.1 he
    rcases Entries.mem_insert inside with rfl | inside
    · exact readable
    · exact h.members _ (Doc.mem_ofMembers.2 ⟨e, inside, rfl⟩)
  obtain ⟨next, fills⟩ := Fills.of_members steady all blank
  exact ⟨next, (ofValue_eq_ok_iff (sorted.insert key v)).2 fills⟩

/-- Whatever stands beside the envelope can be read. -/
theorem fills_free {token : String} (free : token ∉ envelope) {x : Json} (ordered : x.Ordered) :
    ∃ r last, Fills fields keepExtra r (Doc.ofMembers .memory [(token, x)]) last := by
  have read := Reader.json_ofJson ordered .memory
  have whole : ∃ y, Reader.optional Reader.json (Doc.ofJson .memory x) = .ok y := by
    by_cases null : x = .null
    · exact ⟨none, by rw [null]; rfl⟩
    · exact ⟨_, Reader.optional_ofJson null read⟩
  obtain ⟨y, whole⟩ := whole
  by_cases spec : token = "spec"
  · subst spec
    exact ⟨blank, _, .given rfl whole rfl⟩
  by_cases status : token = "status"
  · subst status
    exact ⟨blank, _, .given rfl whole rfl⟩
  · have unknown := field?_of_free free spec status
    have kept : keepExtra blank token (Doc.ofJson .memory x) = .ok _ :=
      keepExtra_eq_ok_iff.2 ⟨x, read, rfl⟩
    exact ⟨blank, _, .cons ((Record.place_unknown unknown).trans kept) (.nil _)⟩

/-- A document with an envelope that was read before can be read. -/
theorem ofValue_of_envelope {given client : List (String × Json)} {o : Object}
    (h : Fills fields keepExtra blank (Doc.ofMembers .memory given) o)
    (ordered : (Json.object client).Ordered)
    (kept : ∀ token ∈ envelope, Entries.find? token client = Entries.find? token given) :
    ∃ next, ofValue (.object client) = .ok next := by
  have all : ∀ e ∈ Doc.ofMembers .memory client, ∃ r last, Fills fields keepExtra r [e] last := by
    intro e he
    obtain ⟨⟨k, x⟩, inside, rfl⟩ := Doc.mem_ofMembers.1 he
    by_cases enveloped : k ∈ envelope
    · have stands := (kept k enveloped).symm.trans (ordered.sorted.find?_eq inside)
      exact h.members _ (Doc.mem_ofMembers.2 ⟨_, Entries.mem_of_find? stands, rfl⟩)
    · exact fills_free enveloped (ordered.members _ inside)
  obtain ⟨next, fills⟩ := Fills.of_members steady all blank
  exact ⟨next, (ofValue_eq_ok_iff ordered.sorted).2 fills⟩

theorem ofValue_fill_spec {d filler : Json} {o : Object} (ordered : d.Ordered)
    (h : ofValue d = .ok o) (filler_ordered : filler.Ordered) (token : String)
    (rest : List String) :
    ∃ next, ofValue (fillAt filler ("spec" :: token :: rest) d) = .ok next := by
  obtain ⟨members, rfl⟩ := object_of_ofValue h
  have fills := (ofValue_eq_ok_iff ordered.sorted).1 h
  have filled : (fillAt filler ("spec" :: token :: rest) (.object members)).Ordered :=
    Json.ordered_fillAt filler_ordered ordered
  refine ofValue_of_envelope fills filled fun key enveloped => Entries.find?_insert_of_ne ?_ _ _
  rintro rfl
  exact absurd enveloped (by decide)

theorem ofValue_fill_annotation {d : Json} {o : Object} (ordered : d.Ordered)
    (h : ofValue d = .ok o) (key text : String) :
    ∃ next, ofValue (fillAt (.string text) ["metadata", "annotations", key] d) = .ok next := by
  obtain ⟨members, rfl⟩ := object_of_ofValue h
  have fills := (ofValue_eq_ok_iff ordered.sorted).1 h
  obtain ⟨m, read⟩ := Metadata.read_fill_annotation (Json.ordered_memberOrNull ordered "metadata")
    (metadata_of_fills ordered.sorted fills) key text
  exact ofValue_insert ordered.sorted fills ⟨blank, _, .present rfl
    (Json.fillAt_cons_ne_null _ _ _ _) read⟩

end Object

end ControllerHooks
