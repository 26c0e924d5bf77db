import ControllerHooks.Decode.Reader
import ControllerHooks.Proofs.Json.Fits

/-!
# What readers accept

* Each reader of a list, of a map or of an optional value is taken apart into the readings of what
  is inside.
* A value in memory can be passed over (`Doc.skip_ofJson`).
* A value in memory is read as itself (`Reader.json_ofJson`), a list item by item
  (`Reader.list_ofJson`), a map entry by entry (`Reader.map_ofJson`).
-/

namespace ControllerHooks

namespace Doc

theorem keys_ofMembers {origin : Origin} {members : List (String × Json)} :
    (ofMembers origin members).map Prod.fst = members.map fun e => Key.text e.1 := by
  induction members with
  | nil => rfl
  | cons e rest ih => simp [ofMembers, ih]

theorem nodup_ofMembers {origin : Origin} {members : List (String × Json)}
    (h : (members.map Prod.fst).Nodup) : ((ofMembers origin members).map Prod.fst).Nodup := by
  rw [List.nodup_iff_pairwise_ne, List.pairwise_map] at h
  rw [keys_ofMembers, List.nodup_iff_pairwise_ne, List.pairwise_map]
  exact h.imp fun other same => other (Key.text.inj same)

theorem ofJson_eq_null_iff {origin : Origin} {v : Json} : ofJson origin v = .null ↔ v = .null := by
  cases v <;> simp [ofJson]

theorem ofJson_eq_string_iff {origin : Origin} {v : Json} {s : String} :
    ofJson origin v = .string s ↔ v = .string s := by
  cases v <;> simp [ofJson]

/-- Only an object in memory is read as one. -/
theorem ofJson_eq_object {origin : Origin} {v : Json} {ms : List (Key × Doc)} {close : Close}
    (h : ofJson origin v = .object ms close) :
    ∃ members, v = .object members ∧ ms = ofMembers origin members := by
  cases v with
  | object members =>
    simp only [ofJson, Doc.object.injEq] at h
    exact ⟨members, rfl, h.1.symm⟩
  | null | bool | number | string | array => simp [ofJson] at h

theorem length_ofItems {origin : Origin} {items : List Json} :
    (ofItems origin items).length = items.length := by
  induction items with
  | nil => rfl
  | cons x rest ih => simp [ofItems, ih]

theorem ofMembers_append {origin : Origin} {first second : List (String × Json)} :
    ofMembers origin (first ++ second) = ofMembers origin first ++ ofMembers origin second := by
  induction first with
  | nil => rfl
  | cons e rest ih => simp [ofMembers, ih]

mutual

/-- A value in memory can be passed over. -/
theorem skip_ofJson (origin : Origin) : (v : Json) → skip (ofJson origin v) = .ok ()
  | .null | .bool _ | .number _ | .string _ => rfl
  | .array items => by
    simp [ofJson, skip, skip_ofItems origin items, Close.arrayFlaw, skipFlaw]
  | .object members => by
    simp [ofJson, skip, skip_ofMembers origin members, Close.objectFlaw, skipFlaw]

theorem skip_ofItems (origin : Origin) :
    (items : List Json) → skipItems (ofItems origin items) = .ok ()
  | [] => rfl
  | x :: rest => by
    simp [ofItems, skipItems, skip_ofJson origin x, skip_ofItems origin rest]

theorem skip_ofMembers (origin : Origin) :
    (members : List (String × Json)) → skipMembers (ofMembers origin members) = .ok ()
  | [] => rfl
  | (_, x) :: rest => by
    simp [ofMembers, skipMembers, Key.skip, skip_ofJson origin x, skip_ofMembers origin rest]

end

end Doc

namespace Reader

variable {α β κ : Type}

theorem wellFormed_eq_ok {result : Except SyntaxError α} {x : α} :
    wellFormed result = .ok x ↔ result = .ok x :=
  mapError_eq_ok

theorem readKey_eq_ok {key : Key} {name : String} :
    wellFormed key.read = .ok name ↔ key = .text name := by
  cases key <;> simp [wellFormed, Key.read]

theorem readFlaw_eq_ok {flaw : Option Flaw} {u : Unit} :
    wellFormed (Doc.readFlaw flaw) = .ok u ↔ flaw = none := by
  cases flaw <;> simp [wellFormed, Doc.readFlaw]

/-! ## Single values -/

theorem json_ofJson {v : Json} (h : v.Ordered) (origin : Origin) :
    json (Doc.ofJson origin v) = .ok v :=
  wellFormed_eq_ok.2 (h.toJson_ofJson origin)

theorem ignored_ofJson (v : Json) (origin : Origin) :
    ignored (Doc.ofJson origin v) = .ok () :=
  wellFormed_eq_ok.2 (Doc.skip_ofJson origin v)

theorem string_eq_ok_iff {d : Doc} {s : String} : string d = .ok s ↔ d = .string s := by
  cases d <;> simp [string]

/-! ## Optional values -/

theorem of_optional {read : Reader α} {d : Doc} {x : Option α} (h : optional read d = .ok x) :
    d = .null ∧ x = none ∨ d ≠ .null ∧ ∃ y, read d = .ok y ∧ x = some y := by
  unfold optional at h
  split at h
  · exact .inl ⟨rfl, (Except.ok.inj h).symm⟩
  · cases h
  · rename_i notNull _
    obtain ⟨y, read, rfl⟩ := map_eq_ok.1 h
    exact .inr ⟨notNull, y, read, rfl⟩

theorem optional_ofJson {read : Reader α} {origin : Origin} {v : Json} (notNull : v ≠ .null)
    {x : α} (h : read (Doc.ofJson origin v) = .ok x) :
    optional read (Doc.ofJson origin v) = .ok (some x) := by
  cases v with
  | null => exact absurd rfl notNull
  | _ => simp only [Doc.ofJson] at h; simp [optional, Doc.ofJson, h]

/-- What is written of `y` stands for something, and is read as `x`. -/
structure Restores (read : Reader α) (toJson : β → Json) (y : β) (x : α) : Prop where
  notNull : toJson y ≠ .null
  read_back (origin : Origin) : read (Doc.ofJson origin (toJson y)) = .ok x

/-- An optional value is restored, a missing one from null. -/
theorem optional_restores {read : Reader α} {toJson : β → Json} {result : β → α} {y : Option β}
    (restores : ∀ b, y = some b → Restores read toJson b (result b)) (origin : Origin) :
    optional read (Doc.ofJson origin ((y.map toJson).getD .null)) = .ok (y.map result) := by
  cases y with
  | none => rfl
  | some b => exact optional_ofJson (restores b rfl).notNull ((restores b rfl).read_back origin)

/-! ## Lists and maps -/

theorem list_eq_ok_iff {read : Reader α} {d : Doc} {xs : List α} :
    list read d = .ok xs ↔ ∃ items close, d = .array items close ∧ items.mapM read = .ok xs ∧
      close.arrayFlaw = none := by
  cases d with
  | array items close =>
    simp only [list, bind_eq_ok, readFlaw_eq_ok, pure_eq_ok_value, Except.ok.injEq,
      Doc.array.injEq]
    constructor
    · rintro ⟨_, read, _, closed, rfl⟩
      exact ⟨_, _, ⟨rfl, rfl⟩, read, closed⟩
    · rintro ⟨_, _, ⟨rfl, rfl⟩, read, closed⟩
      exact ⟨_, read, (), closed, rfl⟩
  | flawed | null | bool | number | string | object | buried => simp [list]

theorem mem_of_mapM {ε : Type} {f : α → Except ε β} {xs : List α} {ys : List β}
    (h : xs.mapM f = .ok ys) : ∀ y ∈ ys, ∃ x ∈ xs, f x = .ok y := by
  induction xs generalizing ys with
  | nil => cases h; simp
  | cons x rest ih =>
    obtain ⟨y, later, head, tail, rfl⟩ := mapM_eq_ok_cons.1 h
    refine List.forall_mem_cons.2 ⟨⟨x, List.mem_cons_self, head⟩, ?_⟩
    intro z hz
    obtain ⟨w, hw, read⟩ := ih tail z hz
    exact ⟨w, List.mem_cons_of_mem _ hw, read⟩

theorem ok_of_mapM {ε : Type} {f : α → Except ε β} {xs : List α} {ys : List β}
    (h : xs.mapM f = .ok ys) : ∀ x ∈ xs, ∃ y, f x = .ok y := by
  induction xs generalizing ys with
  | nil => simp
  | cons x rest ih =>
    obtain ⟨y, later, head, tail, _⟩ := mapM_eq_ok_cons.1 h
    exact List.forall_mem_cons.2 ⟨⟨y, head⟩, ih tail⟩

theorem length_of_mapM {ε : Type} {f : α → Except ε β} {xs : List α} {ys : List β}
    (h : xs.mapM f = .ok ys) : ys.length = xs.length := by
  induction xs generalizing ys with
  | nil => cases h; rfl
  | cons x rest ih =>
    obtain ⟨y, later, _, tail, rfl⟩ := mapM_eq_ok_cons.1 h
    simp [ih tail]

theorem list_ofJson {read : Reader α} {origin : Origin} {toJson : β → Json} {result : β → α}
    {xs : List β} (h : ∀ x ∈ xs, read (Doc.ofJson origin (toJson x)) = .ok (result x)) :
    list read (Doc.ofJson origin (.array (xs.map toJson))) = .ok (xs.map result) := by
  refine list_eq_ok_iff.2 ⟨_, _, rfl, ?_, rfl⟩
  induction xs with
  | nil => rfl
  | cons x rest ih =>
    obtain ⟨head, tail⟩ := List.forall_mem_cons.1 h
    exact mapM_eq_ok_cons.2 ⟨_, _, head, ih tail, rfl⟩

theorem mem_of_members {readKey : String → Except DecodeError κ} {read : Reader α}
    {ms : List (Key × Doc)} {entries : List (κ × α)}
    (h : members readKey read ms = .ok entries) {e : κ × α} (he : e ∈ entries) :
    ∃ name d, (.text name, d) ∈ ms ∧ readKey name = .ok e.1 ∧ read d = .ok e.2 := by
  obtain ⟨⟨key, d⟩, member, readOne⟩ := mem_of_mapM h e he
  simp only [bind_eq_ok, readKey_eq_ok, pure_eq_ok_value, Except.ok.injEq] at readOne
  obtain ⟨name, rfl, k, hk, x, hx, rfl⟩ := readOne
  exact ⟨name, d, member, hk, hx⟩

/-- Every key that is given is read. -/
theorem readKey_of_members {readKey : String → Except DecodeError κ} {read : Reader α}
    {ms : List (Key × Doc)} {entries : List (κ × α)} (h : members readKey read ms = .ok entries)
    {name : String} {d : Doc} (given : (.text name, d) ∈ ms) : ∃ key, readKey name = .ok key := by
  obtain ⟨_, readOne⟩ := ok_of_mapM h _ given
  simp only [bind_eq_ok, readKey_eq_ok] at readOne
  obtain ⟨_, same, key, known, _⟩ := readOne
  obtain rfl := Key.text.inj same
  exact ⟨key, known⟩

section
variable [Ord κ] [Std.TransOrd κ] [Std.LawfulEqOrd κ] {readKey : String → Except DecodeError κ}
  {read : Reader α}

theorem map_eq_ok_iff {d : Doc} {m : SortedMap κ α} :
    map readKey read d = .ok m ↔ ∃ ms close entries, d = .object ms close ∧
      members readKey read ms = .ok entries ∧ close.objectFlaw = none ∧
      m = SortedMap.ofList entries := by
  cases d with
  | object ms close =>
    simp only [map, bind_eq_ok, readFlaw_eq_ok, pure_eq_ok_value, Except.ok.injEq,
      Doc.object.injEq]
    constructor
    · rintro ⟨_, read, _, closed, rfl⟩
      exact ⟨_, _, _, ⟨rfl, rfl⟩, read, closed, rfl⟩
    · rintro ⟨_, _, _, ⟨rfl, rfl⟩, read, closed, rfl⟩
      exact ⟨_, read, (), closed, rfl⟩
  | flawed | null | bool | number | string | array | buried => simp [map]

/-- A map whose keys and values are read back is read back. -/
theorem map_ofJson {β : Type} {origin : Origin} {m : SortedMap κ β} (name : κ → String)
    (toJson : β → Json) (result : β → α) (keys : ∀ e ∈ m.entries, readKey (name e.1) = .ok e.1)
    (values : ∀ e ∈ m.entries, read (Doc.ofJson origin (toJson e.2)) = .ok (result e.2)) :
    map readKey read (Doc.ofJson origin (.object (m.entries.map fun e => (name e.1, toJson e.2)))) =
      .ok (m.mapValues result) := by
  refine map_eq_ok_iff.2 ⟨_, _, m.entries.map fun e => (e.1, result e.2), rfl, ?_, rfl, ?_⟩
  · generalize m.entries = entries at keys values
    induction entries with
    | nil => rfl
    | cons e rest ih =>
      obtain ⟨key, keys⟩ := List.forall_mem_cons.1 keys
      obtain ⟨value, values⟩ := List.forall_mem_cons.1 values
      refine mapM_eq_ok_cons.2 ⟨_, _, ?_, ih keys values, rfl⟩
      simp [wellFormed, Key.read, key, value]
  · exact (SortedMap.ofList_entries (m.mapValues result)).symm

end

end Reader

end ControllerHooks
