import ControllerHooks.Proofs.Admission.Documents
import ControllerHooks.Proofs.Decode.Strict

/-!
# Typed views of values

A controller reads a record of optional fields from a value in memory: from an object by name, or
from an array by position. Either way the record has members, and each field is read from its own.

* `Json.fieldOrNull`: the value of a field.
* `Record.read_ofJson_iff`: an array is read as an object with the names of its places.
* `Record.readable_iff`: a record is read when each of its fields is. `Record.part_of_read`: a part
  of it holds what its field has.
-/

namespace ControllerHooks

open Record (Fills)

namespace Json

/-- A value that has so many fields: an object, or an array with no more items. -/
def IsRecord (places : Nat) : Json → Prop
  | object _ => True
  | array items => items.length ≤ places
  | _ => False

/-- The value of a field: the member with its name, or the item in its place. Nothing and null are
alike. -/
def fieldOrNull (name : String) (place : Nat) : Json → Json
  | object members => memberOrNull name members
  | array items => items.getD place .null
  | _ => .null

/-- The members of a record. Items have the names of their places. -/
def named (names : List String) : Json → List (String × Json)
  | object members => members
  | array items => names.zip items
  | _ => []

theorem keys_zip_sublist (names : List String) (items : List Json) :
    ((names.zip items).map Prod.fst).Sublist names := by
  induction names generalizing items with
  | nil => exact List.nil_sublist _
  | cons name names ih =>
    cases items with
    | nil => exact List.nil_sublist _
    | cons x rest => exact (ih rest).cons_cons name

theorem keys_named_nodup {names : List String} (distinct : names.Nodup) {v : Json}
    (ordered : v.Ordered) : ((v.named names).map Prod.fst).Nodup := by
  cases v with
  | object members => exact ordered.sorted.keys_nodup
  | array items =>
    exact distinct.sublist (keys_zip_sublist names items)
  | null | bool | number | string => exact List.nodup_nil

theorem memberOrNull_zip {names : List String} (distinct : names.Nodup) {place : Nat}
    {name : String} (here : names[place]? = some name) (items : List Json) :
    memberOrNull name (names.zip items) = items.getD place .null := by
  induction names generalizing place items with
  | nil => cases here
  | cons first names ih =>
    obtain ⟨fresh, distinct⟩ := List.nodup_cons.1 distinct
    cases items with
    | nil => simp [memberOrNull, Entries.find?]
    | cons x rest =>
      cases place with
      | zero =>
        obtain rfl := Option.some.inj here
        simp [memberOrNull, Entries.find?]
      | succ place =>
        have other : first ≠ name := by
          rintro rfl
          exact fresh (List.mem_of_getElem? here)
        have later := ih distinct here rest
        simpa [memberOrNull, Entries.find?, other] using later

theorem memberOrNull_named {names : List String} (distinct : names.Nodup) {place : Nat}
    {name : String} (here : names[place]? = some name) (v : Json) :
    memberOrNull name (v.named names) = v.fieldOrNull name place := by
  cases v with
  | array items => exact memberOrNull_zip distinct here items
  | object => rfl
  | null | bool | number | string => rfl

theorem ordered_fieldOrNull {v : Json} (ordered : v.Ordered) (name : String) (place : Nat) :
    (v.fieldOrNull name place).Ordered := by
  cases v with
  | object members => exact ordered_memberOrNull ordered name
  | array items =>
    rw [fieldOrNull, List.getD_eq_getElem?_getD]
    cases here : items[place]? with
    | none => exact .null
    | some x => exact ordered.items x (List.mem_of_getElem? here)
  | null | bool | number | string => exact .null

end Json

/-! ## Fields -/

namespace Field

variable {ρ : Type} {f : Field ρ} {origin : Origin} {v : Json}

/-- The field may be left out, or be null. -/
def IsOptional (f : Field ρ) : Prop :=
  ∃ (α : Type) (read : Reader α) (put : ρ → Option α → ρ), f = optional f.name read put

/-- The field can be given this value. -/
def Takes (f : Field ρ) (origin : Origin) (v : Json) : Prop :=
  ∀ r, ∃ next, f.fill r (Doc.ofJson origin v) = .ok next

theorem IsOptional.not_required (h : f.IsOptional) : f.isRequired = false := by
  obtain ⟨_, _, _, same⟩ := h
  rw [same]
  rfl

theorem IsOptional.isSteady (h : f.IsOptional) : f.IsSteady := by
  obtain ⟨_, _, _, same⟩ := h
  rw [same]
  exact isSteady_set

theorem IsOptional.takes_null (h : f.IsOptional) : f.Takes origin .null := by
  obtain ⟨_, _, _, same⟩ := h
  rw [same]
  exact fun r => ⟨_, rfl⟩

theorem takes_optional {α : Type} {name : String} {read : Reader α} {put : ρ → Option α → ρ}
    (blank : ρ) : (optional name read put).Takes origin v ↔
      v = .null ∨ ∃ x, read (Doc.ofJson origin v) = .ok x := by
  constructor
  · intro takes
    obtain ⟨next, filled⟩ := takes blank
    obtain ⟨x, told, _⟩ := map_eq_ok.1 filled
    rcases Reader.of_optional told with ⟨null, _⟩ | ⟨_, y, read, _⟩
    · exact .inl (Doc.ofJson_eq_null_iff.1 null)
    · exact .inr ⟨y, read⟩
  · intro possible r
    by_cases null : v = .null
    · subst null
      exact ⟨put r none, rfl⟩
    · obtain ⟨x, read⟩ := possible.resolve_left null
      exact ⟨put r (some x), map_eq_ok.2 ⟨_, Reader.optional_ofJson null read, rfl⟩⟩

end Field

/-! ## Records -/

namespace Record

variable {ρ : Type} {fields : List (Field ρ)} {origin : Origin} {name : String} {blank r : ρ}
  {v : Json}

structure AreOptional (fields : List (Field ρ)) : Prop where
  distinct : (fields.map Field.name).Nodup
  optional : ∀ f ∈ fields, f.IsOptional

theorem AreOptional.known (h : AreOptional fields) :
    ∀ f ∈ fields, field? fields f.name = some f := by
  intro f hf
  have some : (field? fields f.name).isSome := List.find?_isSome.2 ⟨f, hf, by simp⟩
  obtain ⟨g, found⟩ := Option.isSome_iff_exists.1 some
  obtain ⟨hg, same⟩ := field?_mem found
  rw [found, List.inj_on_of_nodup_map h.distinct hg hf same]

/-- Items are read as the members that have the names of their places. -/
theorem ofItems_ofJson_iff {expected : String} {position : Nat} {wanted : List (Field ρ)}
    {last : ρ} {items : List Json} (known : ∀ f ∈ wanted, field? fields f.name = some f)
    (optional : ∀ f ∈ wanted, f.IsOptional) :
    ofItems expected position wanted r (Doc.ofItems origin items) (.closed origin) = .ok last ↔
      items.length ≤ wanted.length ∧
        Fills fields ignore r (Doc.ofMembers origin ((wanted.map Field.name).zip items)) last := by
  induction wanted generalizing position r items with
  | nil =>
    cases items with
    | nil =>
      simp only [ofItems, Doc.ofItems, endItems, ok_bind, pure_eq_ok_value, Except.ok.injEq,
        List.length_nil, Nat.le_refl, true_and, List.map_nil, List.zip_nil_left, Doc.ofMembers]
      constructor
      · rintro rfl
        exact .nil r
      · rintro ⟨⟩
        rfl
    | cons x rest => cases origin <;> simp [ofItems, endItems, Doc.ofItems]
  | cons f wanted ih =>
    obtain ⟨here, known⟩ := List.forall_mem_cons.1 known
    obtain ⟨free, optional⟩ := List.forall_mem_cons.1 optional
    cases items with
    | nil =>
      -- Nothing is left for the field, which stays blank; so do those behind it.
      have later : ofItems expected (position + 1) wanted r (Doc.ofItems origin [])
          (.closed origin) = .ok last ↔ ([] : List Json).length ≤ wanted.length ∧
            Fills fields ignore r
              (Doc.ofMembers origin ((wanted.map Field.name).zip [])) last := ih known optional
      simpa [ofItems, Doc.ofItems, Close.arrayFlaw, Doc.readFlaw, Reader.wellFormed,
        free.not_required] using later
    | cons x rest =>
      simp only [ofItems, Doc.ofItems, bind_eq_ok, ih known optional, List.length_cons,
        Nat.add_le_add_iff_right, List.map_cons, List.zip_cons_cons, Doc.ofMembers, Fills.cons_iff]
      constructor
      · rintro ⟨next, filled, few, later⟩
        exact ⟨few, _, next, rfl, (place_known here).trans filled, later⟩
      · rintro ⟨few, _, next, same, placed, later⟩
        obtain rfl := Key.text.inj same
        exact ⟨next, (place_known here).symm.trans placed, few, later⟩

/-- A record is read from its members, be they named or placed. -/
theorem read_ofJson_iff (h : AreOptional fields) (ordered : v.Ordered) :
    read name fields blank (Doc.ofJson origin v) = .ok r ↔ v.IsRecord fields.length ∧
      Fills fields ignore blank (Doc.ofMembers origin (v.named (fields.map Field.name))) r := by
  cases v with
  | object members =>
    have distinct : ((Doc.ofMembers origin members).map Prod.fst).Nodup :=
      Doc.nodup_ofMembers ordered.sorted.keys_nodup
    have given : ∀ f ∈ fields, f.isRequired = true →
        .text f.name ∈ (Doc.ofMembers origin members).map Prod.fst := by
      intro f hf required
      rw [(h.optional f hf).not_required] at required
      cases required
    constructor
    · exact fun read => ⟨trivial, (fills_of_ofMembers read).1⟩
    · exact fun fills => ofMembers_of_fills fills.2 distinct given rfl
  | array items => exact ofItems_ofJson_iff h.known h.optional
  | null | bool | number | string => simp [read, Doc.ofJson, Json.IsRecord]

/-- Members can be read together when each field takes its own. -/
theorem exists_fills_iff (h : AreOptional fields) {members : List (String × Json)}
    (distinct : (members.map Prod.fst).Nodup) :
    (∃ r, Fills fields ignore blank (Doc.ofMembers origin members) r) ↔
      ∀ f ∈ fields, f.Takes origin (Json.memberOrNull f.name members) := by
  constructor
  · rintro ⟨r, fills⟩ f hf
    cases found : Entries.find? f.name members with
    | none =>
      rw [Json.memberOrNull, found]
      exact (h.optional f hf).takes_null
    | some v =>
      have inside : (.text f.name, Doc.ofJson origin v) ∈ Doc.ofMembers origin members :=
        Doc.mem_ofMembers.2 ⟨_, Entries.mem_of_find? found, rfl⟩
      obtain ⟨s, last, one⟩ := fills.members _ inside
      obtain ⟨_, next, same, placed, _⟩ := Fills.cons_iff.1 one
      obtain rfl := Key.text.inj same
      rw [place_known (h.known f hf)] at placed
      rw [Json.memberOrNull, found]
      exact (h.optional f hf).isSteady s next _ placed
  · intro takes
    refine Fills.of_members (steady_ignore fun f hf => (h.optional f hf).isSteady) ?_ blank
    intro m hm
    obtain ⟨⟨key, v⟩, member, rfl⟩ := Doc.mem_ofMembers.1 hm
    cases known : field? fields key with
    | some f =>
      obtain ⟨hf, rfl⟩ := field?_mem known
      have taken := takes f hf
      rw [Json.memberOrNull, Entries.find?_eq_of_nodup distinct member] at taken
      obtain ⟨next, filled⟩ := taken blank
      exact ⟨blank, next, .cons ((place_known known).trans filled) (.nil next)⟩
    | none =>
      have passed : ignore blank key (Doc.ofJson origin v) = .ok blank :=
        ignore_eq_ok_iff.2 ⟨⟨_, Reader.ignored_ofJson v origin⟩, rfl⟩
      exact ⟨blank, blank, .cons ((place_unknown known).trans passed) (.nil blank)⟩

theorem memberOrNull_of_place (h : AreOptional fields) {place : Nat} {f : Field ρ}
    (here : fields[place]? = some f) (v : Json) :
    Json.memberOrNull f.name (v.named (fields.map Field.name)) = v.fieldOrNull f.name place :=
  Json.memberOrNull_named h.distinct (by simp [here]) v

/-- **Readable records.** A record can be read from an object, or from an array that is not too
long, when each field takes its value. -/
theorem readable_iff (h : AreOptional fields) (ordered : v.Ordered) :
    (∃ r, read name fields blank (Doc.ofJson origin v) = .ok r) ↔ v.IsRecord fields.length ∧
      ∀ e ∈ fields.zipIdx, e.1.Takes origin (v.fieldOrNull e.1.name e.2) := by
  have distinct := Json.keys_named_nodup h.distinct ordered
  simp only [read_ofJson_iff h ordered, exists_and_left, exists_fills_iff h distinct]
  refine and_congr_right fun _ => ?_
  constructor
  · intro takes e he
    have here := List.mem_zipIdx_iff_getElem?.1 he
    rw [← memberOrNull_of_place h here]
    exact takes e.1 (List.mem_of_getElem? here)
  · intro takes f hf
    obtain ⟨place, here⟩ := List.mem_iff_getElem?.1 hf
    rw [memberOrNull_of_place h here]
    exact takes (f, place) (List.mem_zipIdx_iff_getElem?.2 here)

/-- A part of a record holds what its field has. -/
theorem part_of_read {α : Type} {key : String} {place : Nat} {reader : Reader α}
    {put : ρ → Option α → ρ} {part : ρ → Option α} (h : AreOptional fields) (ordered : v.Ordered)
    (read : read name fields blank (Doc.ofJson origin v) = .ok r)
    (here : fields[place]? = some (.optional key reader put))
    (own : ∀ r x, part (put r x) = x) (start : part blank = none)
    (fill : ∀ f ∈ fields, f.name ≠ key → f.Keeps part) :
    Reader.optional reader (Doc.ofJson origin (v.fieldOrNull key place)) = .ok (part r) := by
  have fills := ((read_ofJson_iff h ordered).1 read).2
  have distinct := Json.keys_named_nodup h.distinct ordered
  have known := h.known _ (List.mem_of_getElem? here)
  have value : Json.memberOrNull key (v.named (fields.map Field.name)) = v.fieldOrNull key place :=
    memberOrNull_of_place h here v
  rw [← value]
  exact fills.get_optional distinct known own start fill ignore_keeps

end Record

end ControllerHooks
