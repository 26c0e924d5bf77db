import ControllerHooks.Admission.Response
import ControllerHooks.Proofs.Decode.Records
import ControllerHooks.Proofs.Json.Soundness
import ControllerHooks.State

/-!
# Readers accept well-formed documents only

A reader looks at all of a document before it accepts it: what it does not want it passes over. So
nothing that is accepted was cut off or left open.

* `Reader.Strict` says so of a reader, `Field.Strict` of a field of records.
* Each kind of reader is strict when the readers inside it are; `State.strict` is the largest one.
* `Record.given_by`: a record with a required first field comes from an object that names the field,
  or from an array that begins with it.
-/

namespace ControllerHooks

/-- Whatever is accepted is well formed. -/
def Reader.Strict {α : Type} (read : Reader α) : Prop :=
  ∀ (d : Doc) (x : α), read d = .ok x → d.skip = .ok ()

namespace Doc

theorem skip_readFlaw {flaw : Option Flaw} {u : Unit} (h : readFlaw flaw = .ok u) :
    skipFlaw flaw = .ok () := by
  cases flaw with
  | none => rfl
  | some flaw => cases h

theorem skip_key {key : Key} {name : String} (h : key.read = .ok name) : key.skip = .ok () := by
  cases key with
  | text => rfl
  | flawed | other => cases h

mutual

/-- What can be read can be passed over. -/
theorem skip_of_toJson : (d : Doc) → ∀ {v : Json}, d.toJson = .ok v → d.skip = .ok ()
  | .flawed _ _, _, h => by simp [toJson] at h
  | .null, _, _ | .bool _, _, _ | .number _, _, _ | .string _, _, _ => rfl
  | .array items close, _, h => by
    simp only [toJson, bind_eq_ok] at h
    obtain ⟨_, read, _, closed, _⟩ := h
    simp only [skip, unit_bind_eq_ok]
    exact ⟨skip_of_toItems items read, skip_readFlaw closed⟩
  | .object members close, _, h => by
    simp only [toJson, bind_eq_ok] at h
    obtain ⟨_, read, _, closed, _⟩ := h
    simp only [skip, unit_bind_eq_ok]
    exact ⟨skip_of_toMembers members read, skip_readFlaw closed⟩
  | .buried _, _, h => by simp [toJson] at h

theorem skip_of_toItems : (items : List Doc) → ∀ {values : List Json},
    toItems items = .ok values → skipItems items = .ok ()
  | [], _, _ => rfl
  | d :: rest, _, h => by
    simp only [toItems, bind_eq_ok] at h
    obtain ⟨_, head, _, tail, _⟩ := h
    simp only [skipItems, unit_bind_eq_ok]
    exact ⟨skip_of_toJson d head, skip_of_toItems rest tail⟩

theorem skip_of_toMembers : (members : List (Key × Doc)) → ∀ {values : List (String × Json)},
    toMembers members = .ok values → skipMembers members = .ok ()
  | [], _, _ => rfl
  | (key, d) :: rest, _, h => by
    simp only [toMembers, bind_eq_ok] at h
    obtain ⟨_, named, _, head, _, tail, _⟩ := h
    simp only [skipMembers, unit_bind_eq_ok]
    exact ⟨skip_key named, skip_of_toJson d head, skip_of_toMembers rest tail⟩

end

end Doc

namespace Reader

variable {α κ : Type} {read : Reader α}

/-! ## Single values -/

theorem strict_json : json.Strict := by
  intro d v h
  exact d.skip_of_toJson (wellFormed_eq_ok.1 h)

theorem strict_ignored : ignored.Strict := fun _ _ h => wellFormed_eq_ok.1 h

theorem strict_string : string.Strict := by
  intro d s h
  rw [string_eq_ok_iff.1 h]
  rfl

theorem strict_bool : bool.Strict := by
  intro d b h
  cases d with
  | bool => rfl
  | flawed | null | number | string | array | object | buried => cases h

theorem strict_integer (low bound : Int) (expected : String) :
    (integer low bound expected).Strict := by
  intro d n h
  cases d with
  | number => rfl
  | flawed | null | bool | string | array | object | buried => cases h

theorem Strict.map {β : Type} (h : read.Strict) (f : α → β) :
    Strict fun d => (read d).map f := by
  intro d y mapped
  obtain ⟨x, read, _⟩ := map_eq_ok.1 mapped
  exact h d x read

theorem strict_int64 : int64.Strict := Strict.map (strict_integer _ _ _) Int64.ofInt

theorem strict_uint64 : uint64.Strict :=
  Strict.map (strict_integer _ _ _) fun n => UInt64.ofNat n.toNat

theorem strict_timestamp : timestamp.Strict := by
  intro d t h
  cases d with
  | string => rfl
  | flawed | null | bool | number | array | object | buried => cases h

theorem strict_variant (variants : List (String × α)) : (variant variants).Strict := by
  intro d x h
  unfold variant at h
  split at h
  case h_1 => rfl
  case h_5 key content more close =>
    obtain ⟨_, known, h⟩ := bind_eq_ok.1 h
    have named : key.skip = .ok () := by
      cases key with
      | text => rfl
      | flawed | other => cases known
    cases content with
    | null =>
      simp only [pure_eq_ok_value] at h
      split at h
      · exact Doc.skip_object_iff.2 ⟨by simp [Doc.skipMembers, named, Doc.skip], _, rfl⟩
      · cases h
      · cases h
    | flawed | bool | number | string | array | object | buried => cases h
  all_goals cases h

/-! ## Values around others -/

theorem Strict.optional (h : read.Strict) : (optional read).Strict := by
  intro d x accepted
  rcases of_optional accepted with ⟨null, _⟩ | ⟨_, y, read, _⟩
  · rw [null]
    rfl
  · exact h d y read

theorem arrayFlaw_eq_none {close : Close} (h : close.arrayFlaw = none) :
    ∃ origin, close = .closed origin := by
  cases close with
  | closed origin => exact ⟨origin, rfl⟩
  | trailingComma | danglingComma | cut | unexpected => cases h

theorem objectFlaw_eq_none {close : Close} (h : close.objectFlaw = none) :
    ∃ origin, close = .closed origin := by
  cases close with
  | closed origin => exact ⟨origin, rfl⟩
  | trailingComma | danglingComma | cut | unexpected => cases h

theorem Strict.list (h : read.Strict) : (list read).Strict := by
  intro d xs accepted
  obtain ⟨items, close, rfl, each, closed⟩ := list_eq_ok_iff.1 accepted
  refine Doc.skip_array_iff.2 ⟨Doc.skipItems_iff.2 ?_, arrayFlaw_eq_none closed⟩
  clear accepted closed
  induction items generalizing xs with
  | nil => simp
  | cons d rest ih =>
    obtain ⟨x, later, head, tail, _⟩ := mapM_eq_ok_cons.1 each
    exact List.forall_mem_cons.2 ⟨h d x head, ih _ tail⟩

theorem Strict.members {readKey : String → Except DecodeError κ} (h : read.Strict)
    {ms : List (Key × Doc)} {entries : List (κ × α)}
    (accepted : members readKey read ms = .ok entries) :
    Doc.skipMembers ms = .ok () := by
  induction ms generalizing entries with
  | nil => rfl
  | cons m rest ih =>
    obtain ⟨e, later, head, tail, _⟩ := mapM_eq_ok_cons.1 accepted
    obtain ⟨key, d⟩ := m
    simp only [bind_eq_ok, wellFormed_eq_ok] at head
    obtain ⟨_, named, _, _, x, value, _⟩ := head
    simp only [Doc.skipMembers, unit_bind_eq_ok]
    exact ⟨Doc.skip_key named, h d x value, ih tail⟩

theorem Strict.sortedMap [Ord κ] [Std.TransOrd κ] [Std.LawfulEqOrd κ]
    {readKey : String → Except DecodeError κ} (h : read.Strict) :
    (Reader.map readKey read).Strict := by
  intro d m accepted
  obtain ⟨ms, close, entries, rfl, each, closed, _⟩ := map_eq_ok_iff.1 accepted
  exact Doc.skip_object_iff.2 ⟨h.members each, objectFlaw_eq_none closed⟩

theorem strict_textMap : textMap.Strict := strict_string.sortedMap

end Reader

/-! ## Records -/

/-- Whatever the field takes is well formed. -/
def Field.Strict {ρ : Type} (f : Field ρ) : Prop :=
  ∀ (r : ρ) (d : Doc) (next : ρ), f.fill r d = .ok next → d.skip = .ok ()

namespace Field

variable {α ρ : Type} {read : Reader α} {name : String}

theorem strict_set (h : read.Strict) {isRequired : Bool} {put : ρ → α → ρ} :
    Strict ⟨name, isRequired, set read put⟩ :=
  fun r => h.map (put r)

theorem strict_required (h : read.Strict) {put : ρ → α → ρ} : (required name read put).Strict :=
  strict_set h

theorem strict_defaulted (h : read.Strict) {put : ρ → α → ρ} : (defaulted name read put).Strict :=
  strict_set h

theorem strict_optional (h : read.Strict) {put : ρ → Option α → ρ} :
    (optional name read put).Strict := strict_set h.optional

end Field

namespace Record

variable {ρ : Type} {fields : List (Field ρ)}
  {other : ρ → String → Doc → Except DecodeError ρ}

theorem Fills.skip (fill : ∀ f ∈ fields, f.Strict)
    (keep : ∀ {r name d next}, other r name d = .ok next → d.skip = .ok ()) {r last : ρ}
    {members : List (Key × Doc)} (h : Fills fields other r members last) :
    Doc.skipMembers members = .ok () := by
  induction h with
  | nil => rfl
  | @cons r next last name d rest placed _ ih =>
    simp only [Doc.skipMembers, unit_bind_eq_ok]
    refine ⟨rfl, ?_, ih⟩
    cases known : field? fields name with
    | some f =>
      rw [place_known known] at placed
      exact fill f (field?_mem known).1 r d next placed
    | none =>
      rw [place_unknown known] at placed
      exact keep placed

theorem skip_of_ignore {r next : ρ} {name : String} {d : Doc} (h : ignore r name d = .ok next) :
    d.skip = .ok () := by
  obtain ⟨⟨_, passed⟩, _⟩ := ignore_eq_ok_iff.1 h
  exact Reader.strict_ignored d _ passed

theorem strict_readLoose (fill : ∀ f ∈ fields, f.Strict) (name : String) (blank : ρ) :
    (readLoose name fields blank).Strict := by
  intro d r accepted
  obtain ⟨members, close, rfl, fills, closed⟩ := readLoose_eq_ok_iff.1 accepted
  exact Doc.skip_object_iff.2 ⟨fills.skip fill skip_of_ignore, Reader.objectFlaw_eq_none closed⟩

theorem skip_of_ofMembers (fill : ∀ f ∈ fields, f.Strict)
    (keep : ∀ {r name d next}, other r name d = .ok next → d.skip = .ok ()) {blank r : ρ}
    {members : List (Key × Doc)} {close : Close}
    (h : ofMembers fields other blank members close = .ok r) :
    (Doc.object members close).skip = .ok () := by
  obtain ⟨fills, closed⟩ := fills_of_ofMembers h
  exact Doc.skip_object_iff.2 ⟨fills.skip fill keep, Reader.objectFlaw_eq_none closed⟩

theorem endItems_eq_ok {taken : Nat} {more : List Doc} {close : Close} {u : Unit}
    (h : endItems taken more close = .ok u) : more = [] ∧ ∃ origin, close = .closed origin := by
  unfold endItems at h
  split at h
  · exact ⟨rfl, _, rfl⟩
  all_goals cases h

/-- There are no more items than fields to fill. -/
theorem length_of_ofItems {expected : String} {position : Nat} {wanted : List (Field ρ)}
    {r last : ρ} {items : List Doc} {close : Close}
    (h : ofItems expected position wanted r items close = .ok last) :
    items.length ≤ wanted.length := by
  induction wanted generalizing position r items with
  | nil =>
    obtain ⟨_, ended, _⟩ := bind_eq_ok.1 h
    obtain ⟨rfl, _⟩ := endItems_eq_ok ended
    exact Nat.le_refl _
  | cons f wanted ih =>
    cases items with
    | nil => exact Nat.zero_le _
    | cons d rest =>
      obtain ⟨next, _, later⟩ := bind_eq_ok.1 h
      exact Nat.succ_le_succ (ih later)

theorem skip_of_ofItems {expected : String} {position : Nat} {wanted : List (Field ρ)}
    (fill : ∀ f ∈ wanted, f.Strict) {r last : ρ} {items : List Doc} {close : Close}
    (h : ofItems expected position wanted r items close = .ok last) :
    (Doc.array items close).skip = .ok () := by
  induction wanted generalizing position r items with
  | nil =>
    obtain ⟨_, ended, _⟩ := bind_eq_ok.1 h
    obtain ⟨rfl, closed⟩ := endItems_eq_ok ended
    exact Doc.skip_array_iff.2 ⟨rfl, closed⟩
  | cons f wanted ih =>
    obtain ⟨own, fill⟩ := List.forall_mem_cons.1 fill
    cases items with
    | nil =>
      obtain ⟨_, closed, _⟩ := bind_eq_ok.1 h
      have ended := Reader.arrayFlaw_eq_none (Reader.readFlaw_eq_ok.1 closed)
      exact Doc.skip_array_iff.2 ⟨rfl, ended⟩
    | cons d rest =>
      obtain ⟨next, filled, later⟩ := bind_eq_ok.1 h
      obtain ⟨items, closed⟩ := Doc.skip_array_iff.1 (ih fill later)
      refine Doc.skip_array_iff.2 ⟨?_, closed⟩
      simp only [Doc.skipItems, unit_bind_eq_ok]
      exact ⟨own r d next filled, items⟩

theorem strict_read (fill : ∀ f ∈ fields, f.Strict) (name : String) (blank : ρ) :
    (read name fields blank).Strict := by
  intro d r accepted
  cases d with
  | object members close => exact skip_of_ofMembers fill skip_of_ignore accepted
  | array items close => exact skip_of_ofItems fill accepted
  | flawed | null | bool | number | string | buried => cases accepted

/-- A record whose first field is required comes from an object that names the field, or from an
array that begins with it and holds no more than the fields. -/
theorem given_by {name : String} {first : Field ρ} {others : List (Field ρ)} {blank r : ρ} {d : Doc}
    (required : first.isRequired = true) (known : field? (first :: others) first.name = some first)
    (h : read name (first :: others) blank d = .ok r) :
    (∃ members close, d = .object members close ∧
      (∃ e, (.text first.name, e) ∈ members) ∧
      ∀ e, (.text first.name, e) ∈ members → ∃ s next, first.fill s e = .ok next) ∨
    ∃ e rest close, d = .array (e :: rest) close ∧ rest.length ≤ others.length ∧
      ∃ next, first.fill blank e = .ok next := by
  cases d with
  | object members close =>
    refine .inl ⟨members, close, rfl, ?_, ?_⟩
    · have given := required_of_ofMembers h first List.mem_cons_self required
      obtain ⟨⟨_, e⟩, inside, rfl⟩ := List.mem_map.1 given
      exact ⟨e, inside⟩
    · intro e inside
      obtain ⟨s, _, one⟩ := (fills_of_ofMembers h).1.members _ inside
      obtain ⟨_, next, same, placed, _⟩ := Fills.cons_iff.1 one
      obtain rfl := Key.text.inj same
      exact ⟨s, next, (place_known known).symm.trans placed⟩
  | array items close =>
    cases items with
    | nil =>
      obtain ⟨_, _, failed⟩ := bind_eq_ok.1 h
      simp [required] at failed
    | cons e rest =>
      obtain ⟨next, filled, later⟩ := bind_eq_ok.1 h
      exact .inr ⟨e, rest, close, rfl, length_of_ofItems later, next, filled⟩
  | flawed | null | bool | number | string | buried => cases h

end Record

/-! ## Payloads -/

theorem OwnerReference.strict : OwnerReference.read.Strict := by
  apply Record.strict_readLoose
  simp only [List.forall_mem_cons]
  exact ⟨Field.strict_optional Reader.strict_string, Field.strict_optional Reader.strict_bool,
    Field.strict_optional Reader.strict_bool, Field.strict_optional Reader.strict_string,
    Field.strict_optional Reader.strict_string, Field.strict_optional Reader.strict_string,
    by simp⟩

theorem ManagedFields.strict : ManagedFields.read.Strict := by
  apply Record.strict_readLoose
  simp only [List.forall_mem_cons]
  exact ⟨Field.strict_optional Reader.strict_string, Field.strict_optional Reader.strict_string,
    Field.strict_optional Reader.strict_json, Field.strict_optional Reader.strict_string,
    Field.strict_optional Reader.strict_string, Field.strict_optional Reader.strict_string,
    Field.strict_optional Reader.strict_timestamp, by simp⟩

theorem Metadata.strict : (Payload.read : Reader Metadata).Strict := by
  apply Record.strict_readLoose
  simp only [Metadata.fields, List.forall_mem_cons]
  exact ⟨Field.strict_optional Reader.strict_textMap,
    Field.strict_optional Reader.strict_timestamp, Field.strict_optional Reader.strict_int64,
    Field.strict_optional Reader.strict_timestamp,
    Field.strict_optional Reader.strict_string.list,
    Field.strict_optional Reader.strict_string, Field.strict_optional Reader.strict_int64,
    Field.strict_optional Reader.strict_textMap,
    Field.strict_optional ManagedFields.strict.list,
    Field.strict_optional Reader.strict_string, Field.strict_optional Reader.strict_string,
    Field.strict_optional OwnerReference.strict.list,
    Field.strict_optional Reader.strict_string, Field.strict_optional Reader.strict_string,
    Field.strict_optional Reader.strict_string, by simp⟩

theorem Object.fields_strict : ∀ f ∈ fields, f.Strict := by
  simp only [fields, List.forall_mem_cons]
  exact ⟨Field.strict_defaulted Reader.strict_string,
    Field.strict_defaulted Reader.strict_string, Field.strict_optional Metadata.strict,
    Field.strict_optional Reader.strict_json, Field.strict_optional Reader.strict_json, by simp⟩

theorem Object.skip_of_keepExtra {o next : Object} {name : String} {d : Doc}
    (h : keepExtra o name d = .ok next) : d.skip = .ok () := by
  obtain ⟨_, read, _⟩ := bind_eq_ok.1 h
  exact Reader.strict_json d _ read

theorem Object.strict : (Payload.read : Reader Object).Strict := by
  intro d o h
  cases d with
  | object members close => exact Record.skip_of_ofMembers fields_strict skip_of_keepExtra h
  | flawed | null | bool | number | string | array | buried => cases h

theorem Dependents.strict : (Payload.read : Reader Dependents).Strict :=
  Object.strict.list.sortedMap

theorem Event.strict : (Payload.read : Reader Event).Strict := by
  apply Record.strict_read
  simp only [List.forall_mem_cons]
  exact ⟨Field.strict_required (Reader.strict_variant _),
    Field.strict_required Reader.strict_string, Field.strict_required Reader.strict_string, by simp⟩

theorem State.strict : (Payload.read : Reader State).Strict := by
  apply Record.strict_read
  simp only [State.fields, List.forall_mem_cons]
  exact ⟨Field.strict_required Object.strict, Field.strict_defaulted Dependents.strict,
    Field.strict_defaulted Dependents.strict, Field.strict_defaulted Event.strict.list,
    Field.strict_defaulted Reader.strict_bool, Field.strict_optional Reader.strict_uint64, by simp⟩

theorem AdmissionRequest.strict : (Payload.read : Reader AdmissionRequest).Strict := by
  apply Record.strict_read
  simp only [List.forall_mem_cons]
  exact ⟨Field.strict_required Object.strict, by simp⟩

end ControllerHooks
