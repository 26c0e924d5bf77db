import ControllerHooks.Proofs.Codec.Object
import ControllerHooks.Proofs.Json.Parsing
import ControllerHooks.State

/-!
# States that are written and read again

* `State.portable_of_decode`: what a request holds can be written and read again, when its numbers
  are integers of 64 bits.
* `State.decode_encode`: what comes back is the state, with every point in time at the start of its
  second.
-/

namespace ControllerHooks

open Record (Fills ignore_keeps)

variable {numbers : Number → Prop} {origin : Origin} {room : Nat}

/-! ## Events -/

theorem Event.read_toJson (e : Event) :
    Payload.read (Doc.ofJson origin (Payload.toJson e)) = .ok e := by
  obtain ⟨type, reason, message⟩ := e
  cases type <;> rfl

theorem Event.fits_toJson (e : Event) : (Payload.toJson e : Json).Within numbers (room + 1) := by
  refine .object ?_
  simp only [List.forall_mem_cons]
  exact ⟨.string _, .string _, .string _, by simp⟩

/-! ## Dependents -/

namespace Dependents

/-- The keys are well formed, and the objects are legible. -/
def Legible (numbers : Number → Prop) (room : Nat) (deps : Dependents) : Prop :=
  ∀ e ∈ deps.entries, ResourceKey.isWellFormed e.1.text = true ∧ ∀ o ∈ e.2, o.Legible numbers room

def wholeSeconds (deps : Dependents) : Dependents :=
  deps.mapValues fun objects => objects.map Object.wholeSeconds

theorem read_key_eq_ok_iff {text : String} {key : ResourceKey} :
    ResourceKey.read text = .ok key ↔ ResourceKey.isWellFormed text = true ∧ key = ⟨text⟩ := by
  unfold ResourceKey.read ResourceKey.parse?
  by_cases h : ResourceKey.isWellFormed text = true <;> simp [h, eq_comm]

theorem legible_of_read {d : Doc} {deps : Dependents} (h : Payload.read d = .ok deps)
    (fits : d.Within numbers (room + 6)) : deps.Legible numbers room := by
  obtain ⟨ms, close, entries, rfl, read, _, rfl⟩ := Reader.map_eq_ok_iff.1 h
  intro e he
  obtain ⟨name, item, inside, key, list⟩ := Reader.mem_of_members read (Entries.mem_ofList he)
  obtain ⟨wellFormed, same⟩ := read_key_eq_ok_iff.1 key
  cases fits with
  | object fit _ =>
    refine ⟨by rwa [same], ?_⟩
    intro o ho
    obtain ⟨d, fits, read⟩ := Reader.mem_of_list list (fit _ inside) o ho
    exact Object.legible_of_read read fits

theorem read_toJson {deps : Dependents} (h : deps.Legible numbers room) :
    Payload.read (Doc.ofJson origin (Payload.toJson deps)) = .ok deps.wholeSeconds := by
  apply Reader.map_ofJson ResourceKey.text Payload.toJson
  · intro e he
    exact read_key_eq_ok_iff.2 ⟨(h e he).1, rfl⟩
  · intro e he
    apply Reader.list_ofJson
    intro o ho
    exact Object.read_toJson ((h e he).2 o ho) origin

theorem fits_toJson [Number.CoversWords numbers] {deps : Dependents}
    (h : deps.Legible numbers room) :
    (Payload.toJson deps : Json).Within numbers (room + 6) := by
  apply Json.Within.object
  intro m hm
  obtain ⟨e, he, rfl⟩ := List.mem_map.1 hm
  apply Json.fits_array_map
  intro o ho
  exact Object.fits_toJson ((h e he).2 o ho)

theorem toJson_wholeSeconds (deps : Dependents) :
    (Payload.toJson deps.wholeSeconds : Json) = Payload.toJson deps := by
  have objects (os : List Object) :
      (Payload.toJson (os.map Object.wholeSeconds) : Json) = Payload.toJson os := by
    show Json.array ((os.map Object.wholeSeconds).map Payload.toJson) = _
    rw [List.map_map, List.map_congr_left fun o _ => o.toJson_wholeSeconds]
    rfl
  show Json.object ((deps.entries.map _).map _) = _
  rw [List.map_map, List.map_congr_left fun e _ => congrArg (Prod.mk e.1.text) (objects e.2)]
  rfl

theorem isEmpty_wholeSeconds (deps : Dependents) :
    SortedMap.isEmpty deps.wholeSeconds = SortedMap.isEmpty deps := by
  simp [SortedMap.isEmpty, wholeSeconds, SortedMap.mapValues]

theorem legible_empty : Legible numbers room .empty := by
  simp [Legible, SortedMap.empty]

end Dependents

/-! ## States -/

namespace State

/-- The parent and all dependents and references are legible. -/
structure Legible (numbers : Number → Prop) (room : Nat) (s : State) : Prop where
  object : s.object.Legible numbers (room + 2)
  dependents : s.dependents.Legible numbers room
  references : s.references.Legible numbers room

/-- The state can be written and read again, with its numbers unchanged. -/
abbrev Portable (room : Nat) (s : State) : Prop := s.Legible Number.IsWord room

def wholeSeconds (s : State) : State :=
  { s with
    object := s.object.wholeSeconds
    dependents := s.dependents.wholeSeconds
    references := s.references.wholeSeconds }

theorem field?_self : ∀ f ∈ fields, Record.field? fields f.name = some f := by
  simp [fields, Record.field?, Field.required, Field.defaulted, Field.optional]

theorem legible_of_read {d : Doc} {s : State} (h : Payload.read d = .ok s)
    (fits : d.Within numbers (room + 7)) : s.Legible numbers room := by
  obtain ⟨members, fills, inside⟩ := Record.fills_of_read field?_self h
  have fit := inside numbers _ fits
  constructor
  · refine fills.part_holds (Object.Legible numbers (room + 2)) object "object" rfl
      (fun _ _ => rfl) ?_ ignore_keeps ?_ ?_
    · simp [fields, Field.required, Field.optional, Field.defaulted, Field.keeps_set]
    · exact Object.legible_blank
    · exact fun e inside x read => Object.legible_of_read read (fit e inside)
  · refine fills.part_holds (Dependents.Legible numbers room) dependents "dependents" rfl
      (fun _ _ => rfl) ?_ ignore_keeps ?_ ?_
    · simp [fields, Field.required, Field.optional, Field.defaulted, Field.keeps_set]
    · exact Dependents.legible_empty
    · exact fun e inside x read => Dependents.legible_of_read read (fit e inside)
  · refine fills.part_holds (Dependents.Legible numbers room) references "references" rfl
      (fun _ _ => rfl) ?_ ignore_keeps ?_ ?_
    · simp [fields, Field.required, Field.optional, Field.defaulted, Field.keeps_set]
    · exact Dependents.legible_empty
    · exact fun e inside x read => Dependents.legible_of_read read (fit e inside)

/-- The state that a request holds. -/
theorem portable_of_decode {text : Bytes} {s : State} (words : text.HasWords)
    (h : Payload.decode text = .ok s) : s.Portable 120 :=
  legible_of_read (Payload.read_of_decode h) (Document.parse_within words)

/-! ### Reading back -/

theorem keys_nodup (s : State) : (s.members.map Prod.fst).Nodup := by
  have some (c : Bool) (name : String) (v : Json) :
      List.Sublist ((if c then [] else [(name, v)]).map Prod.fst) [name] := by
    cases c <;> simp
  have requeue : List.Sublist
      ((if s.requeue then [("requeue", Json.bool true)] else []).map Prod.fst) ["requeue"] := by
    cases s.requeue <;> simp
  have whole : List.Sublist (s.members.map Prod.fst)
      (["object", "dependents"] ++ ["references"] ++ ["events"] ++ ["requeue"] ++
        ["requeueAfter"]) := by
    simp only [members, List.map_append]
    exact ((((List.Sublist.refl _).append (some _ _ _)).append (some _ _ _)).append
      requeue).append (Json.keys_optional _ _ _)
  exact whole.nodup (by decide)

/-- The members that are written only when there is something to write. -/
theorem fills_unless {c : Bool} {name : String} {v : Json} {s next : State}
    (absent : c = true → next = s)
    (present : c = false → Fills fields Record.ignore s (Doc.ofMembers origin [(name, v)]) next) :
    Fills fields Record.ignore s (Doc.ofMembers origin (if c then [] else [(name, v)])) next := by
  cases c with
  | true =>
    rw [absent rfl]
    exact .nil s
  | false => exact present rfl

theorem fills_references {deps : Dependents} (h : deps.Legible numbers room) {s : State}
    (unset : s.references = .empty) :
    Fills fields Record.ignore s (Doc.ofMembers origin
      (if deps.isEmpty then [] else [("references", Payload.toJson deps)]))
      { s with references := deps.wholeSeconds } := by
  apply fills_unless
  · intro absent
    have none : deps.wholeSeconds = .empty := by
      apply SortedMap.ext
      simpa [Dependents.wholeSeconds, SortedMap.mapValues, SortedMap.isEmpty, SortedMap.empty]
        using absent
    rw [none, ← unset]
  · intro _
    exact .given rfl (Dependents.read_toJson h) rfl

theorem fills_events (es : List Event) {s : State} (unset : s.events = []) :
    Fills fields Record.ignore s (Doc.ofMembers origin
      (if es.isEmpty then [] else [("events", Payload.toJson es)])) { s with events := es } := by
  have read : Payload.read (Doc.ofJson origin (Payload.toJson es)) = .ok (es.map fun e => e) :=
    Reader.list_ofJson fun e _ => e.read_toJson
  rw [List.map_id'] at read
  apply fills_unless
  · intro absent
    rw [List.isEmpty_iff.1 absent, ← unset]
  · intro _
    exact .given rfl read rfl

theorem fills_requeue (b : Bool) {s : State} (unset : s.requeue = false) :
    Fills fields Record.ignore s (Doc.ofMembers origin
      (if b then [("requeue", .bool true)] else [])) { s with requeue := b } := by
  cases b with
  | true => exact .given rfl rfl rfl
  | false =>
    have same : { s with requeue := false } = s := by rw [← unset]
    rw [same]
    exact .nil s

theorem read_toJson {s : State} (h : s.Legible numbers room) :
    Payload.read (Doc.ofJson origin (Payload.toJson s)) = .ok s.wholeSeconds := by
  have fills : Fills fields Record.ignore blank (Doc.ofMembers origin s.members)
      s.wholeSeconds := by
    have object : Record.place fields Record.ignore blank "object"
        (Doc.ofJson origin (Payload.toJson s.object)) =
          .ok { blank with object := s.object.wholeSeconds } :=
      (Record.place_known rfl).trans (map_eq_ok.2 ⟨_, Object.read_toJson h.object origin, rfl⟩)
    have dependents : Record.place fields Record.ignore
        { blank with object := s.object.wholeSeconds } "dependents"
        (Doc.ofJson origin (Payload.toJson s.dependents)) =
          .ok { blank with
            object := s.object.wholeSeconds, dependents := s.dependents.wholeSeconds } :=
      (Record.place_known rfl).trans (map_eq_ok.2 ⟨_, Dependents.read_toJson h.dependents, rfl⟩)
    simp only [members, Doc.ofMembers_append, List.append_assoc]
    refine Fills.append (.cons object (.cons dependents (.nil _))) ?_
    refine Fills.append (fills_references h.references rfl) ?_
    refine Fills.append (fills_events s.events rfl) ?_
    refine Fills.append (fills_requeue s.requeue rfl) ?_
    exact .restored rfl Reader.restores_uint64 rfl rfl
  refine Record.ofMembers_of_fills fills (Doc.nodup_ofMembers s.keys_nodup) ?_ rfl
  simp [fields, Field.required, Field.optional, Field.defaulted, Doc.keys_ofMembers, members]

theorem fits_toJson [Number.CoversWords numbers] {s : State} (h : s.Legible numbers room) :
    (Payload.toJson s : Json).Within numbers (room + 7) := by
  have none : ∀ m ∈ ([] : List (String × Json)), m.2.Within numbers (room + 6) := by simp
  have some {c : Bool} {name : String} {v : Json} (fits : v.Within numbers (room + 6)) :
      ∀ m ∈ (if c then [] else [(name, v)]), m.2.Within numbers (room + 6) := by
    cases c <;> simp [fits]
  have events : (Payload.toJson s.events : Json).Within numbers (room + 6) :=
    Json.fits_array_map fun e _ => e.fits_toJson
  have requeue : ∀ m ∈ (if s.requeue then [("requeue", Json.bool true)] else []),
      m.2.Within numbers (room + 6) := by
    cases s.requeue <;> simp [Json.Within.bool]
  have after : ∀ n ∈ s.requeueAfter, (Json.ofNat n.toNat).Within numbers (room + 6) := by
    intro n _
    have bound := n.toNat_lt
    exact .number (Number.CoversWords.covers ⟨by omega, by omega⟩)
  refine .object ?_
  simp only [members, List.forall_mem_append, Json.forall_mem_optional, List.forall_mem_cons]
  exact ⟨⟨⟨⟨⟨Object.fits_toJson h.object, Dependents.fits_toJson h.dependents, none⟩,
    some (Dependents.fits_toJson h.references)⟩, some events⟩, requeue⟩, after⟩

theorem toJson_wholeSeconds (s : State) :
    (Payload.toJson s.wholeSeconds : Json) = Payload.toJson s := by
  show Json.object s.wholeSeconds.members = .object s.members
  simp only [members, wholeSeconds, Object.toJson_wholeSeconds, Dependents.toJson_wholeSeconds]
  rw [Dependents.isEmpty_wholeSeconds]
  rfl

/-- **Writing and reading.** A portable state is read from its own text, at whole seconds. -/
theorem decode_encode {s : State} (h : s.Portable 120) :
    Payload.decode (Payload.encode s) = .ok s.wholeSeconds := by
  rw [Payload.encode, Payload.decode_bytes (fits_toJson h)]
  exact read_toJson h

end State

end ControllerHooks
