import ControllerHooks.Proofs.Admission.Documents
import ControllerHooks.Proofs.Codec.NormalForm
import ControllerHooks.Proofs.Codec.Ordered

/-!
# What the document of an object keeps

An object that was read from a value in memory is written as a value again. That is the one that
was given, with some members left out and with points in time in other words.

* `Json.Pared` relates the two; what is reached in the second through the keys of objects is there
  in the first (`Json.Pared.memberAt?`).
* `Object.find?_members_iff`: what is kept beside the metadata.
* `Object.ofValue_toValue`: what is written is read again, without the fractions of its seconds.
* `Object.toValue_faithful` says all of it.
-/

namespace ControllerHooks

open Record (Fills)
open Json (memberOrNull)
open FieldRule (find?_of_memberOrNull)
open Timestamp (AllWhole)

/-! ## Members left out -/

namespace Json

/-- What is reached through these keys, each in the object under the one before. -/
def memberAt? : List String → Json → Option Json
  | [], v => some v
  | key :: rest, v => (v.get? key).bind (memberAt? rest)

/-- How many items there are, in a list. -/
def length? : Json → Option Nat
  | .array items => some items.length
  | _ => none

/-- The second value is the first one with members of objects left out, other texts, and other
lists that are as long. -/
inductive Pared : (given : Json) → (written : Json) → Prop
  | same (v : Json) : Pared v v
  | text (s t : String) : Pared (.string s) (.string t)
  | items {xs ys : List Json} (length : ys.length = xs.length) : Pared (.array xs) (.array ys)
  | members {given written : List (String × Json)}
    (found : ∀ key y, Entries.find? key written = some y → ∃ x, Entries.find? key given = some x)
    (inside : ∀ key x y, Entries.find? key given = some x → Entries.find? key written = some y →
      Pared x y) : Pared (.object given) (.object written)

variable {v w : Json}

theorem Restated.pared (h : v.Restated w) : v.Pared w := by
  cases h with
  | same => exact .same v
  | text s t => exact .text s t
  | items length => exact .items length

theorem Restated.null_iff (h : v.Restated w) : v = .null ↔ w = .null := by
  cases h <;> simp

/-- Whatever is reached in a value that was pared was there before. -/
theorem Pared.memberAt? {y : Json} {path : List String} (h : v.Pared w)
    (reached : w.memberAt? path = some y) : ∃ x, v.memberAt? path = some x ∧ x.Pared y := by
  induction path generalizing v w with
  | nil =>
    obtain rfl := Option.some.inj reached
    exact ⟨v, rfl, h⟩
  | cons key rest ih =>
    obtain ⟨inner, here, below⟩ := Option.bind_eq_some_iff.1 reached
    cases h with
    | same => exact ⟨y, reached, .same y⟩
    | text | items => cases here
    | members found inside =>
      obtain ⟨outer, there⟩ := found key inner here
      obtain ⟨x, reached, pared⟩ := ih (inside key outer inner there here) below
      exact ⟨x, Option.bind_eq_some_iff.2 ⟨outer, there, reached⟩, pared⟩

theorem Pared.length?_eq (h : v.Pared w) : w.length? = v.length? := by
  cases h with
  | same | text | members => rfl
  | items length => exact congrArg some length

end Json

/-! ## Metadata -/

namespace Metadata

theorem members_notNull (m : Metadata) : ∀ e ∈ m.members, e.2 ≠ .null := by
  simp only [members, List.forall_mem_append, Json.forall_mem_optional, and_assoc]
  simp [mapJson, timeJson, int64Json, Json.ofInt, textsJson, arrayJson]

section
variable {given : List (String × Json)} {m : Metadata} {key : String} {y : Json}
  (ordered : (Json.object given).Ordered)
  (h : Fills fields Record.ignore blank (Doc.ofMembers .memory given) m)
include ordered h

/-- A member that is written is a known one, and restates what was given. -/
theorem given_of_written (written : Entries.find? key m.members = some y) :
    (Record.field? fields key).isSome ∧
      ∃ x, Entries.find? key given = some x ∧ x ≠ .null ∧ x.Restated y := by
  have notNull : y ≠ .null := members_notNull m _ (Entries.mem_of_find? written)
  have stands : memberOrNull key m.members = y := by rw [memberOrNull, written, Option.getD_some]
  cases known : Record.field? fields key with
  | none => exact absurd (stands.symm.trans (memberOrNull_unknown known)) notNull
  | some f =>
    obtain ⟨member, rfl⟩ := Record.field?_mem known
    have same := restated ordered h f member
    rw [stands] at same
    have present := mt same.null_iff.1 notNull
    exact ⟨rfl, _, find?_of_memberOrNull rfl present, present, same⟩

/-- What is written of the metadata is what is known of them and not null. -/
theorem find?_members_isSome_iff : (Entries.find? key m.members).isSome ↔
    (Record.field? fields key).isSome ∧ ∃ x, Entries.find? key given = some x ∧ x ≠ .null := by
  constructor
  · intro some
    obtain ⟨y, written⟩ := Option.isSome_iff_exists.1 some
    obtain ⟨known, x, found, present, _⟩ := given_of_written ordered h written
    exact ⟨known, x, found, present⟩
  · rintro ⟨known, x, found, present⟩
    obtain ⟨f, known⟩ := Option.isSome_iff_exists.1 known
    obtain ⟨member, rfl⟩ := Record.field?_mem known
    have same := restated ordered h f member
    rw [memberOrNull, found, Option.getD_some] at same
    rw [find?_of_memberOrNull rfl (mt same.null_iff.2 present), Option.isSome_some]

theorem text_member_kept (texts : key = "annotations" ∨ key = "labels")
    (written : Entries.find? key m.members = some y) : Entries.find? key given = some y := by
  have notNull : y ≠ .null := members_notNull m _ (Entries.mem_of_find? written)
  have stands : memberOrNull key m.members = y := by rw [memberOrNull, written, Option.getD_some]
  refine find?_of_memberOrNull ?_ notNull
  rcases texts with rfl | rfl
  · exact (annotations_kept ordered h).symm.trans stands
  · exact (labels_kept ordered h).symm.trans stands

theorem pared : (Json.object given).Pared (.object m.members) := by
  refine .members ?_ ?_
  · intro key y written
    obtain ⟨_, x, found, _⟩ := given_of_written ordered h written
    exact ⟨x, found⟩
  · intro key x y found written
    obtain ⟨_, _, here, _, same⟩ := given_of_written ordered h written
    obtain rfl := Option.some.inj (found.symm.trans here)
    exact same.pared

end

end Metadata

/-! ## Objects -/

namespace Object

/-- The members that are left out at the top: parts of the object that are null, and empty texts
of the envelope. -/
def Omits (key : String) (x : Json) : Prop :=
  key ∈ ["metadata", "spec", "status"] ∧ x = .null ∨ key ∈ ["apiVersion", "kind"] ∧ x = .string ""

theorem legible_of_ofValue {v : Json} {o : Object} (read : ofValue v = .ok o) :
    o.Legible (fun _ => True) (sizeOf v) := by
  have within : v.Within (fun _ => True) (sizeOf v + 4) :=
    Json.within_of_sizeOf (Nat.le_add_right _ _)
  exact legible_of_read (mapError_eq_ok.1 read) (Doc.within_ofJson within .memory)

/-- A text is written unless it is empty. -/
theorem text_eq_some_iff {given : Option Json} {text : String} {x : Json}
    (read : given = none ∧ text = "" ∨ given = some (.string text)) :
    (if text ≠ "" then some (Json.string text) else none) = some x ↔
      given = some x ∧ x ≠ .string "" := by
  rcases read with ⟨rfl, rfl⟩ | rfl
  · simp
  · by_cases empty : text = ""
    · subst empty
      simp [eq_comm]
    · simp only [ne_eq, empty, not_false_eq_true, if_true, Option.some.injEq, iff_self_and]
      rintro rfl
      simpa using empty

/-- A free-form part is written unless it is null. -/
theorem part_eq_some_iff {members : List (String × Json)} {key : String} {part : Option Json}
    {x : Json} (kept : memberOrNull key members = part.getD .null)
    (notNull : ∀ y ∈ part, y ≠ .null) :
    part = some x ↔ Entries.find? key members = some x ∧ x ≠ .null := by
  constructor
  · rintro rfl
    exact ⟨find?_of_memberOrNull kept (notNull x rfl), notNull x rfl⟩
  · rintro ⟨found, present⟩
    rw [memberOrNull, found, Option.getD_some] at kept
    cases part with
    | none => exact absurd kept present
    | some y => exact congrArg some kept.symm

section
variable {members : List (String × Json)} {o : Object} (ordered : (Json.object members).Ordered)
  (h : Fills fields keepExtra blank (Doc.ofMembers .memory members) o)
include ordered h

/-- Beside the metadata the members that are not left out are kept as they stand. -/
theorem find?_members_iff {room : Nat} (legible : o.Legible (fun _ => True) room) {key : String}
    {x : Json} (other : key ≠ "metadata") :
    Entries.find? key (Entries.ofList o.members) = some x ↔
      Entries.find? key members = some x ∧ ¬Omits key x := by
  have unknown := extra_unknown h
  by_cases apiVersion : key = "apiVersion"
  · subst apiVersion
    rw [find?_apiVersion unknown, text_eq_some_iff (apiVersion_of_fills ordered.sorted h)]
    simp [Omits]
  by_cases kind : key = "kind"
  · subst kind
    rw [find?_kind unknown, text_eq_some_iff (kind_of_fills ordered.sorted h)]
    simp [Omits]
  by_cases spec : key = "spec"
  · subst spec
    rw [find?_spec unknown, part_eq_some_iff (spec_kept ordered h) fun v here =>
      (legible.spec v here).1]
    simp [Omits]
  by_cases status : key = "status"
  · subst status
    have kept := json_kept ordered (status_of_fills ordered.sorted h)
    rw [find?_status unknown, part_eq_some_iff kept fun v here => (legible.status v here).1]
    simp [Omits]
  · have free : key ∉ envelope := by simp [envelope, apiVersion, kind, other]
    have unknown := field?_of_free free spec status
    rw [find?_of_unknown unknown, extra_kept ordered h unknown]
    simp [Omits, apiVersion, kind, other, spec, status, SortedMap.get?, blank, SortedMap.empty,
      Entries.find?]

/-- The metadata are left out when they are missing or null, and pared otherwise. -/
theorem metadata_kept :
    (∀ x, Entries.find? "metadata" members = some x → x = .null) ∧
        Entries.find? "metadata" (Entries.ofList o.members) = none ∨
      ∃ inside m, Entries.find? "metadata" members = some (.object inside) ∧
        (Json.object inside).Ordered ∧
        Fills Metadata.fields Record.ignore .blank (Doc.ofMembers .memory inside) m ∧
        Entries.find? "metadata" (Entries.ofList o.members) = some (.object m.members) := by
  rw [find?_metadata (extra_unknown h)]
  rcases metadata_inside ordered h with ⟨null, none⟩ | ⟨inside, m, value, inner, fills, some⟩
  · refine .inl ⟨fun x found => ?_, by rw [none, Option.map_none]⟩
    rwa [memberOrNull, found, Option.getD_some] at null
  · exact .inr ⟨inside, m, find?_of_memberOrNull value (by simp), inner, fills,
      by rw [some, Option.map_some]; rfl⟩

/-- Below the metadata there is nothing in either document, or the metadata of each. -/
theorem metadata_below :
    (∀ key, (Json.object members).memberAt? ["metadata", key] = none) ∧
        (∀ key, o.toValue.memberAt? ["metadata", key] = none) ∨
      ∃ inside m, (Json.object inside).Ordered ∧
        Fills Metadata.fields Record.ignore .blank (Doc.ofMembers .memory inside) m ∧
        (∀ key, (Json.object members).memberAt? ["metadata", key] = Entries.find? key inside) ∧
        ∀ key, o.toValue.memberAt? ["metadata", key] = Entries.find? key m.members := by
  rcases metadata_kept ordered h with ⟨null, none⟩ | ⟨inside, m, found, inner, fills, some⟩
  · refine .inl ⟨fun key => Option.bind_eq_none_iff.2 fun x found => ?_, fun key => ?_⟩
    · rw [null x found]
      rfl
    · simp [Json.memberAt?, Json.get?, toValue, none]
  · refine .inr ⟨inside, m, inner, fills, fun key => ?_, fun key => ?_⟩
    · simp [Json.memberAt?, Json.get?, found]
    · simp [Json.memberAt?, Json.get?, toValue, some]

theorem pared {room : Nat} (legible : o.Legible (fun _ => True) room) :
    (Json.object members).Pared o.toValue := by
  refine .members ?_ ?_
  · intro key y written
    by_cases metadata : key = "metadata"
    · subst metadata
      rcases metadata_kept ordered h with ⟨_, none⟩ | ⟨inside, _, found, _⟩
      · cases written.symm.trans none
      · exact ⟨_, found⟩
    · exact ⟨y, ((find?_members_iff ordered h legible metadata).1 written).1⟩
  · intro key x y found written
    by_cases metadata : key = "metadata"
    · subst metadata
      rcases metadata_kept ordered h with ⟨_, none⟩ | ⟨inside, m, here, inner, fills, some⟩
      · cases written.symm.trans none
      · obtain rfl := Option.some.inj (found.symm.trans here)
        obtain rfl := Option.some.inj (written.symm.trans some)
        exact Metadata.pared inner fills
    · have here := ((find?_members_iff ordered h legible metadata).1 written).1
      obtain rfl := Option.some.inj (found.symm.trans here)
      exact .same x

end

/-- What is written of an object is what was given, as far as it is known and says something. -/
structure Faithful (given written : Json) : Prop where
  /-- At the top nothing is left out but nulls and empty texts, and nothing is added. -/
  members : ∀ key, (written.get? key).isSome ↔ ∃ x, given.get? key = some x ∧ ¬Omits key x
  values : ∀ key x, key ≠ "metadata" → written.get? key = some x → given.get? key = some x
  /-- In the metadata there is what is known and not null. -/
  metadata : ∀ key, (written.memberAt? ["metadata", key]).isSome ↔
    (Record.field? Metadata.fields key).isSome ∧
      ∃ x, given.memberAt? ["metadata", key] = some x ∧ x ≠ .null
  notNull : ∀ key, written.memberAt? ["metadata", key] ≠ some .null
  texts : ∀ key x, key = "annotations" ∨ key = "labels" →
    written.memberAt? ["metadata", key] = some x → given.memberAt? ["metadata", key] = some x
  /-- Lists have as many items as they had, and nothing is added at any depth. -/
  lists : ∀ path x y, given.memberAt? path = some x → written.memberAt? path = some y →
    y.length? = x.length?
  within : ∀ path, (written.memberAt? path).isSome → (given.memberAt? path).isSome

section
variable {members : List (String × Json)} {o : Object} {room : Nat}
  (ordered : (Json.object members).Ordered)
  (h : Fills fields keepExtra blank (Doc.ofMembers .memory members) o)
  (legible : o.Legible (fun _ => True) room)
include ordered h legible

theorem get?_toValue_isSome_iff (key : String) : (o.toValue.get? key).isSome ↔
    ∃ x, Entries.find? key members = some x ∧ ¬Omits key x := by
  show (Entries.find? key (Entries.ofList o.members)).isSome ↔ _
  by_cases metadata : key = "metadata"
  · subst metadata
    rcases metadata_kept ordered h with ⟨null, none⟩ | ⟨inside, m, found, _, _, some⟩
    · simp only [none, Option.isSome_none, Bool.false_eq_true, false_iff]
      rintro ⟨x, found, kept⟩
      exact kept (.inl ⟨List.mem_cons_self, null x found⟩)
    · simp [some, found, Omits]
  · simp only [Option.isSome_iff_exists]
    exact exists_congr fun x => find?_members_iff ordered h legible metadata

theorem faithful_of_fills : Faithful (.object members) o.toValue where
  members := get?_toValue_isSome_iff ordered h legible
  values key x other written := ((find?_members_iff ordered h legible other).1 written).1
  metadata key := by
    rcases metadata_below ordered h with ⟨nothing, none⟩ | ⟨inside, m, inner, fills, before, after⟩
    · simp [nothing, none]
    · rw [before, after]
      exact Metadata.find?_members_isSome_iff inner fills
  notNull key := by
    rcases metadata_below ordered h with ⟨_, none⟩ | ⟨inside, m, _, _, _, after⟩
    · simp [none]
    · rw [after]
      exact fun null => Metadata.members_notNull m _ (Entries.mem_of_find? null) rfl
  texts key x texts := by
    rcases metadata_below ordered h with ⟨_, none⟩ | ⟨inside, m, inner, fills, before, after⟩
    · simp [none]
    · rw [before, after]
      exact Metadata.text_member_kept inner fills texts
  lists path x y there reached := by
    obtain ⟨_, here, pared⟩ := (pared ordered h legible).memberAt? reached
    obtain rfl := Option.some.inj (there.symm.trans here)
    exact pared.length?_eq
  within path reached := by
    obtain ⟨y, reached⟩ := Option.isSome_iff_exists.1 reached
    obtain ⟨x, there, _⟩ := (pared ordered h legible).memberAt? reached
    exact Option.isSome_iff_exists.2 ⟨x, there⟩

end

/-! ## Reading again -/

theorem text_of_written {given text : String}
    (read : (if given ≠ "" then some (Json.string given) else none) = none ∧ text = "" ∨
      (if given ≠ "" then some (Json.string given) else none) = some (.string text)) :
    text = given := by
  by_cases empty : given = ""
  · simpa [empty] using read
  · simpa [empty, eq_comm] using read

theorem part_of_written {given part : Option Json}
    (restores : ∀ v, given = some v → Reader.json.Restores id v v)
    (read : Reader.optional Reader.json (Doc.ofJson .memory (given.getD .null)) = .ok part) :
    part = given := by
  have back : Reader.optional Reader.json (Doc.ofJson .memory ((given.map id).getD .null)) =
      .ok (given.map id) := Reader.optional_restores restores .memory
  simp only [Option.map_id_fun, id_eq] at back
  exact Except.ok.inj (read.symm.trans back)

/-- What is written in memory is the object at whole seconds. -/
theorem ofValue_toValue {o : Object} {room : Nat} (legible : o.Legible (fun _ => True) room)
    (ordered : o.toValue.Ordered) : ofValue o.toValue = .ok o.wholeSeconds := by
  have sorted := Entries.sorted_ofList o.members
  obtain ⟨again, fills⟩ : ∃ again, Fills fields keepExtra blank
      (Doc.ofMembers .memory (Entries.ofList o.members)) again := by
    -- each member was read in the order of writing, so each is read in the order of its keys
    refine Fills.of_members steady (fun e he => ?_) blank
    obtain ⟨m, inside, rfl⟩ := Doc.mem_ofMembers.1 he
    exact (fills_toJson legible .memory).members _
      (Doc.mem_ofMembers.2 ⟨m, Entries.mem_ofList inside, rfl⟩)
  have unknown := legible.unknown
  have apiVersion : again.apiVersion = o.apiVersion := by
    have read := apiVersion_of_fills sorted fills
    rw [find?_apiVersion unknown] at read
    exact text_of_written read
  have kind : again.kind = o.kind := by
    have read := kind_of_fills sorted fills
    rw [find?_kind unknown] at read
    exact text_of_written read
  have metadata : again.metadata = o.metadata.map Metadata.wholeSeconds := by
    have read := metadata_of_fills sorted fills
    rw [memberOrNull_metadata unknown] at read
    exact Except.ok.inj (read.symm.trans
      (Reader.optional_restores legible.restores_metadata .memory))
  have spec : again.spec = o.spec := by
    have read := spec_of_fills sorted fills
    rw [memberOrNull_spec unknown] at read
    exact part_of_written legible.restores_spec read
  have status : again.status = o.status := by
    have read := status_of_fills sorted fills
    rw [memberOrNull, find?_status unknown] at read
    exact part_of_written legible.restores_status read
  have extra : again.extra = o.extra := by
    refine SortedMap.ext (again.extra.sorted.ext o.extra.sorted fun key => ?_)
    show again.extra.get? key = o.extra.get? key
    cases known : Record.field? fields key with
    | some f => rw [extra_of_known unknown known, extra_of_known (extra_unknown fills) known]
    | none =>
      rw [extra_kept ordered fills known, find?_of_unknown known]
      exact Option.or_none
  have same : again = o.wholeSeconds := by
    cases again
    simp only at apiVersion kind metadata spec status extra
    subst apiVersion kind metadata spec status extra
    rfl
  rw [toValue, (ofValue_eq_ok_iff sorted).2 fills, same]

/-- **Faithful documents.** The document of an object that was read from a value has a member at
the top wherever the value has one, but for null parts and empty texts of the envelope, and every
member beside the metadata as it stands. Of the metadata it has what is known and not null, with
annotations and labels as they stand, lists as long as they were and nothing that was not there. It
is read again, as an object with the same document: the object itself exactly when no time of its
metadata has a fraction of a second. -/
theorem toValue_faithful {v : Json} {o : Object} (ordered : v.Ordered) (read : ofValue v = .ok o) :
    Faithful v o.toValue ∧
      ∃ again, ofValue o.toValue = .ok again ∧ again.toValue = o.toValue ∧
        (again = o ↔ AllWhole o.times) := by
  obtain ⟨members, rfl⟩ := object_of_ofValue read
  have legible := legible_of_ofValue read
  have fills := (ofValue_eq_ok_iff ordered.sorted).1 read
  have written := toValue_ordered (ordered_of_read (mapError_eq_ok.1 read))
  refine ⟨faithful_of_fills ordered fills legible, o.wholeSeconds,
    ofValue_toValue legible written, ?_, wholeSeconds_eq_self_iff⟩
  exact congrArg (fun members => Json.object (Entries.ofList members))
    (Json.object.inj o.toJson_wholeSeconds)

/-- A document with what is left out, what is dropped from the metadata, and half a second. -/
def cluttered : Json := .object
  [("apiVersion", .string ""), ("kind", .string "Deployment"),
    ("metadata", .object
      [("color", .string "red"), ("creationTimestamp", .string "2024-01-01T00:00:00.5Z"),
        ("finalizers", .array [.string "keep"]), ("labels", .object [("app", .string "web")]),
        ("name", .null)]),
    ("note", .null), ("spec", .null)]

/-- What is read from it. -/
def ofCluttered : Object :=
  { blank with
    kind := "Deployment"
    metadata := some { Metadata.blank with
      creationTimestamp := some ⟨2024, 1, 1, 0, 0, 0, 500000000⟩
      finalizers := some ["keep"]
      labels := some ⟨[("app", "web")], by decide⟩ }
    extra := ⟨[("note", .null)], by decide⟩ }

/-- It is written without them, and is another object when it is read again. -/
theorem toValue_faithful_of_cluttered :
    cluttered.Ordered ∧ ofValue cluttered = .ok ofCluttered ∧
      Faithful cluttered ofCluttered.toValue ∧
      ofCluttered.toValue = .object
        [("kind", .string "Deployment"),
          ("metadata", .object
            [("creationTimestamp", .string "2024-01-01T00:00:00Z"),
              ("finalizers", .array [.string "keep"]),
              ("labels", .object [("app", .string "web")])]),
          ("note", .null)] ∧
      ∃ again, ofValue ofCluttered.toValue = .ok again ∧ again.toValue = ofCluttered.toValue ∧
        again ≠ ofCluttered := by
  have labels : (Json.object [("app", .string "web")]).Ordered :=
    .object (by decide) (by simp [Json.Ordered.string])
  have metadata : (Json.object
      [("color", .string "red"), ("creationTimestamp", .string "2024-01-01T00:00:00.5Z"),
        ("finalizers", .array [.string "keep"]), ("labels", .object [("app", .string "web")]),
        ("name", .null)]).Ordered :=
    .object (by decide) (by simp [Json.Ordered.string, Json.Ordered.null, Json.Ordered.array,
      labels])
  have ordered : cluttered.Ordered :=
    .object (by decide) (by simp [Json.Ordered.string, Json.Ordered.null, metadata])
  have read : ofValue cluttered = .ok ofCluttered := rfl
  obtain ⟨faithful, again, reread, same, whole⟩ := toValue_faithful ordered read
  refine ⟨ordered, read, faithful, by decide, again, reread, same, fun unchanged => ?_⟩
  have fraction : (500000000 : Nat) = 0 := whole.1 unchanged _ List.mem_cons_self
  cases fraction

end Object

end ControllerHooks
