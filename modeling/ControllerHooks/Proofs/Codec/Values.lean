import ControllerHooks.Metadata
import ControllerHooks.Proofs.Decode.Records
import ControllerHooks.Proofs.Timestamps

/-!
# Values that are written and read again

* `Json.Legible`: a value that is its own reading, and is not too deep to be read. Whatever is
  read from a request is legible (`Reader.json_legible`).
* Each kind of single value, and each kind of list and map of texts, is read back as it was written,
  but for the fraction of a second of a point in time.
-/

namespace ControllerHooks

variable {numbers : Number → Prop}

namespace Json

/-- The value is its own reading, at most `room` deep, with numbers of a kind. -/
structure Legible (numbers : Number → Prop) (room : Nat) (v : Json) : Prop where
  ordered : v.Ordered
  fits : v.Within numbers room

theorem forall_mem_optional {α : Type} {P : String × Json → Prop} {name : String}
    {toJson : α → Json} {x : Option α} :
    (∀ m ∈ optional name toJson x, P m) ↔ ∀ y ∈ x, P (name, toJson y) := by
  cases x <;> simp [optional]

theorem keys_optional {α : Type} (name : String) (toJson : α → Json) (x : Option α) :
    ((optional name toJson x).map Prod.fst).Sublist [name] := by
  cases x <;> simp [optional]

theorem fits_array_map {α : Type} {room : Nat} {toJson : α → Json} {xs : List α}
    (h : ∀ x ∈ xs, (toJson x).Within numbers room) :
    (Json.array (xs.map toJson)).Within numbers (room + 1) := by
  apply Within.array
  intro v hv
  obtain ⟨x, hx, rfl⟩ := List.mem_map.1 hv
  exact h x hx

end Json

namespace Doc

theorem null_of_toJson {d : Doc} (h : d.toJson = .ok .null) : d = .null := by
  cases d with
  | null => rfl
  | array | object => simp [toJson, bind_eq_ok] at h
  | flawed | bool | number | string | buried => simp [toJson] at h

end Doc

namespace Reader

variable {α : Type} {origin : Origin}

theorem json_legible {d : Doc} {room : Nat} {v : Json} (h : json d = .ok v)
    (fits : d.Within numbers room) : v.Legible numbers room :=
  have read := wellFormed_eq_ok.1 h
  ⟨Doc.toJson_ordered d read, Doc.toJson_within d fits read⟩

theorem optional_json_legible {d : Doc} {room : Nat} {x : Option Json}
    (h : optional json d = .ok x) (fits : d.Within numbers room) :
    ∀ v ∈ x, v ≠ .null ∧ v.Legible numbers room := by
  rintro v ⟨⟩
  rcases of_optional h with ⟨_, none⟩ | ⟨notNull, w, read, same⟩
  · cases none
  · obtain rfl := Option.some.inj same
    refine ⟨?_, json_legible read fits⟩
    rintro rfl
    exact notNull (Doc.null_of_toJson (wellFormed_eq_ok.1 read))

theorem optional_timestamp_valid {d : Doc} {x : Option Timestamp}
    (h : optional timestamp d = .ok x) : ∀ t ∈ x, t.Valid := by
  rintro t ⟨⟩
  rcases of_optional h with ⟨_, none⟩ | ⟨_, u, read, same⟩
  · cases none
  · obtain rfl := Option.some.inj same
    cases d with
    | string s => exact Timestamp.valid_of_parse (mapError_eq_ok.1 read)
    | flawed | null | bool | number | array | object | buried => simp [timestamp] at read

/-! ## Reading back -/

theorem restores_string (s : String) : Restores string .string s s where
  notNull := by simp
  read_back _ := rfl

theorem restores_bool (b : Bool) : Restores bool .bool b b where
  notNull := by simp
  read_back _ := rfl

theorem restores_json {room : Nat} {v : Json} (notNull : v ≠ .null)
    (legible : v.Legible numbers room) : Restores json id v v where
  notNull := notNull
  read_back := json_ofJson legible.ordered

theorem integer_ofInt {low bound n : Int} (range : low ≤ n ∧ n < bound) (expected : String) :
    integer low bound expected (Doc.ofJson origin (.ofInt n)) = .ok n := by
  simp [integer, Json.ofInt, Doc.ofJson, range]

theorem restores_int64 (n : Int64) : Restores int64 Metadata.int64Json n n where
  notNull := by simp [Metadata.int64Json, Json.ofInt]
  read_back origin := by
    have range : -0x8000000000000000 ≤ n.toInt ∧ n.toInt < 0x8000000000000000 :=
      ⟨n.le_toInt, n.toInt_lt⟩
    rw [int64, Metadata.int64Json, integer_ofInt range, ok_map, Int64.ofInt_toInt]

theorem restores_uint64 (n : UInt64) : Restores uint64 (fun n => .ofNat n.toNat) n n where
  notNull := by simp [Json.ofNat]
  read_back origin := by
    have bound := n.toNat_lt
    have range : (0 : Int) ≤ n.toNat ∧ (n.toNat : Int) < 0x10000000000000000 := by omega
    have read : integer 0 0x10000000000000000 "u64" (Doc.ofJson origin (.ofNat n.toNat)) =
        .ok n.toNat := integer_ofInt range "u64"
    rw [uint64, read, ok_map, Int.toNat_natCast, UInt64.ofNat_toNat]

theorem restores_timestamp {t : Timestamp} (valid : t.Valid) :
    Restores timestamp Metadata.timeJson t t.wholeSecond where
  notNull := by simp [Metadata.timeJson]
  read_back origin := by
    simp [timestamp, Metadata.timeJson, Doc.ofJson, Timestamp.parse_text valid]

theorem restores_array {β : Type} {read : Reader α} {toJson : β → Json} {result : β → α}
    {xs : List β}
    (h : ∀ x ∈ xs, ∀ origin, read (Doc.ofJson origin (toJson x)) = .ok (result x)) :
    Restores (list read) (Metadata.arrayJson toJson) xs (xs.map result) where
  notNull := by simp [Metadata.arrayJson]
  read_back origin := by
    have each : ∀ x ∈ xs, read (Doc.ofJson origin (toJson x)) = .ok (result x) := by
      intro x hx
      exact h x hx origin
    exact list_ofJson each

theorem restores_texts (texts : List String) :
    Restores (list string) Metadata.textsJson texts texts where
  notNull := by simp [Metadata.textsJson]
  read_back origin := by
    have read : list string (Doc.ofJson origin (.array (texts.map .string))) =
        .ok (texts.map id) := list_ofJson fun _ _ => rfl
    rwa [List.map_id] at read

theorem restores_textMap (m : TextMap) : Restores textMap Metadata.mapJson m m where
  notNull := by simp [Metadata.mapJson]
  read_back origin := by
    have read : textMap (Doc.ofJson origin (Metadata.mapJson m)) = .ok (m.mapValues id) :=
      map_ofJson id .string id (fun _ _ => rfl) fun _ _ => rfl
    have same : m.mapValues id = m := SortedMap.ext (by simp [SortedMap.mapValues])
    rwa [same] at read

end Reader

namespace Metadata

variable {room : Nat}

theorem fits_int64Json [Number.CoversWords numbers] (n : Int64) :
    (int64Json n).Within numbers room := by
  have low := n.le_toInt
  have high := n.toInt_lt
  exact .number (Number.CoversWords.covers ⟨low, by omega⟩)

theorem fits_timeJson (t : Timestamp) : (timeJson t).Within numbers room := .string _

theorem fits_textsJson (texts : List String) : (textsJson texts).Within numbers (room + 1) :=
  Json.fits_array_map fun _ _ => .string _

theorem fits_mapJson (m : TextMap) : (mapJson m).Within numbers (room + 1) := by
  apply Json.Within.object
  intro e he
  obtain ⟨entry, _, rfl⟩ := List.mem_map.1 he
  exact .string _

end Metadata

end ControllerHooks
