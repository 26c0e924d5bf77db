import ControllerHooks.Object
import ControllerHooks.Proofs.Codec.Metadata

/-!
# Objects that are written and read again

* `Object.legible_of_read`: what is read can be written and read again.
* `Object.read_toJson`: what comes back is the object, with every point in time at the start of its
  second.
-/

namespace ControllerHooks

open Record (Fills)

theorem SortedMap.entries_foldl_insert {κ α : Type} [Ord κ] [Std.TransOrd κ] [Std.LawfulEqOrd κ]
    (m : SortedMap κ α) (added : List (κ × α)) :
    (added.foldl (fun m e => m.insert e.1 e.2) m).entries = Entries.insertAll m.entries added := by
  induction added generalizing m with
  | nil => rfl
  | cons e rest ih => exact ih (m.insert e.1 e.2)

namespace Object

variable {numbers : Number → Prop} {origin : Origin} {room : Nat}

theorem keepExtra_eq_ok_iff {o next : Object} {name : String} {d : Doc} :
    keepExtra o name d = .ok next ↔ ∃ v, Reader.json d = .ok v ∧
      next = { o with extra := o.extra.insert name v } := by
  simp only [keepExtra, bind_eq_ok, pure_eq_ok_value, Except.ok.injEq]
  exact exists_congr fun _ => and_congr_right fun _ => eq_comm

theorem keepExtra_keeps {β : Type} {part : Object → β}
    (other : ∀ o v, part { o with extra := v } = part o) {o next : Object} {name : String} {d : Doc}
    (h : keepExtra o name d = .ok next) : part next = part o := by
  obtain ⟨_, _, rfl⟩ := keepExtra_eq_ok_iff.1 h
  exact other _ _

/-- The other members come from members that are no fields. -/
theorem extra_of_fills (Good : Doc → Prop) (P : String → Json → Prop)
    {members : List (Key × Doc)} {o : Object} (h : Fills fields keepExtra blank members o)
    (good : ∀ m ∈ members, Good m.2)
    (told : ∀ {name d v}, Record.field? fields name = none → Good d → Reader.json d = .ok v →
      P name v) : ∀ e ∈ o.extra.entries, P e.1 e.2 := by
  have keepsExtra : ∀ f ∈ fields, f.Keeps extra := by
    simp [fields, Field.optional, Field.defaulted, Field.keeps_set]
  have fill : ∀ f ∈ fields, ∀ {r d next}, Good d → (∀ e ∈ r.extra.entries, P e.1 e.2) →
      f.fill r d = .ok next → ∀ e ∈ next.extra.entries, P e.1 e.2 := by
    intro f member r d next _ known filled
    rwa [keepsExtra f member _ _ _ filled]
  refine h.invariant fill ?_ good (by simp [blank, SortedMap.empty])
  intro r name d next unknown goodOne known kept e he
  obtain ⟨v, read, rfl⟩ := keepExtra_eq_ok_iff.1 kept
  rcases Entries.mem_insert he with rfl | he
  · exact told unknown goodOne read
  · exact known e he

theorem extra_unknown {members : List (Key × Doc)} {o : Object}
    (h : Fills fields keepExtra blank members o) :
    ∀ e ∈ o.extra.entries, Record.field? fields e.1 = none :=
  extra_of_fills (fun _ => True) (fun name _ => Record.field? fields name = none) h
    (fun _ _ => trivial) fun unknown _ _ => unknown

/-- Every free-form value is legible, and the other members do not pass for fields. -/
structure Legible (numbers : Number → Prop) (room : Nat) (o : Object) : Prop where
  metadata : ∀ m ∈ o.metadata, m.Legible numbers room
  spec : ∀ v ∈ o.spec, v ≠ .null ∧ v.Legible numbers (room + 3)
  status : ∀ v ∈ o.status, v ≠ .null ∧ v.Legible numbers (room + 3)
  extra : ∀ e ∈ o.extra.entries, Record.field? fields e.1 = none ∧ e.2.Legible numbers (room + 3)

def wholeSeconds (o : Object) : Object :=
  { o with metadata := o.metadata.map Metadata.wholeSeconds }

theorem legible_blank : Legible numbers room blank where
  metadata := by simp [blank]
  spec := by simp [blank]
  status := by simp [blank]
  extra := by simp [blank, SortedMap.empty]

theorem legible_of_read {d : Doc} {o : Object} (h : Payload.read d = .ok o)
    (fits : d.Within numbers (room + 4)) : o.Legible numbers room := by
  obtain ⟨members, close, rfl⟩ : ∃ members close, d = .object members close := by
    cases d with
    | object members close => exact ⟨members, close, rfl⟩
    | flawed | null | bool | number | string | array | buried => cases h
  have fills := (Record.fills_of_ofMembers h).1
  cases fits with
  | object fit _ =>
    constructor
    · refine fills.part_holds (fun x => ∀ m ∈ x, m.Legible numbers room) metadata "metadata"
        rfl (fun _ _ => rfl) ?_ (keepExtra_keeps fun _ _ => rfl) (by simp [blank]) ?_
      · simp [fields, Field.optional, Field.defaulted, Field.keeps_set]
      · rintro e inside x read m rfl
        rcases Reader.of_optional read with ⟨_, none⟩ | ⟨_, m, read, same⟩
        · cases none
        · obtain rfl := Option.some.inj same
          exact Metadata.legible_of_read read (fit e inside)
    · refine fills.part_holds (fun x => ∀ v ∈ x, v ≠ .null ∧ v.Legible numbers (room + 3)) spec
        "spec" rfl (fun _ _ => rfl) ?_ (keepExtra_keeps fun _ _ => rfl) (by simp [blank]) ?_
      · simp [fields, Field.optional, Field.defaulted, Field.keeps_set]
      · exact fun e inside x read => Reader.optional_json_legible read (fit e inside)
    · refine fills.part_holds (fun x => ∀ v ∈ x, v ≠ .null ∧ v.Legible numbers (room + 3)) status
        "status" rfl (fun _ _ => rfl) ?_ (keepExtra_keeps fun _ _ => rfl) (by simp [blank]) ?_
      · simp [fields, Field.optional, Field.defaulted, Field.keeps_set]
      · exact fun e inside x read => Reader.optional_json_legible read (fit e inside)
    · exact extra_of_fills (Doc.Within numbers (room + 3))
        (fun name v => Record.field? fields name = none ∧ v.Legible numbers (room + 3)) fills fit
        fun unknown fits read => ⟨unknown, Reader.json_legible read fits⟩

/-! ## Reading back -/

theorem fills_textMember {name text : String} {put : Object → String → Object} {o next : Object}
    (known : Record.field? fields name = some (.defaulted name Reader.string put))
    (unset : put o "" = o) (filled : put o text = next) :
    Fills fields keepExtra o (Doc.ofMembers origin (textMember name text)) next := by
  subst filled
  by_cases empty : text = ""
  · subst empty
    rw [unset]
    exact .nil o
  · simp only [textMember, empty, if_false]
    exact .one known rfl

theorem fills_extra {entries : List (String × Json)}
    (h : ∀ e ∈ entries, Record.field? fields e.1 = none ∧ e.2.Ordered) (o : Object) :
    Fills fields keepExtra o (Doc.ofMembers origin entries)
      { o with extra := entries.foldl (fun m e => m.insert e.1 e.2) o.extra } := by
  induction entries generalizing o with
  | nil => exact .nil o
  | cons e rest ih =>
    obtain ⟨⟨unknown, ordered⟩, later⟩ := List.forall_mem_cons.1 h
    have kept : keepExtra o e.1 (Doc.ofJson origin e.2) =
        .ok { o with extra := o.extra.insert e.1 e.2 } :=
      keepExtra_eq_ok_iff.2 ⟨_, Reader.json_ofJson ordered origin, rfl⟩
    exact .cons ((Record.place_unknown unknown).trans kept) (ih later _)

theorem keys_nodup {o : Object}
    (unknown : ∀ e ∈ o.extra.entries, Record.field? fields e.1 = none) :
    (o.members.map Prod.fst).Nodup := by
  have text (name text : String) : List.Sublist ((textMember name text).map Prod.fst) [name] := by
    unfold textMember
    split <;> simp
  have whole : List.Sublist (o.members.map Prod.fst)
      (["apiVersion"] ++ ["kind"] ++ ["metadata"] ++ ["spec"] ++ ["status"] ++
        o.extra.entries.map Prod.fst) := by
    simp only [members, List.map_append]
    have one {α : Type} (name : String) (toJson : α → Json) (x : Option α) :=
      Json.keys_optional name toJson x
    exact (((((text _ _).append (text _ _)).append (one _ _ _)).append (one _ _ _)).append
      (one _ _ _)).append (.refl _)
  refine whole.nodup (List.nodup_append.2 ⟨by decide, o.extra.sorted.keys_nodup, ?_⟩)
  rintro name here key there rfl
  obtain ⟨e, he, rfl⟩ := List.mem_map.1 there
  have none := unknown e he
  simp only [List.cons_append, List.nil_append, List.mem_cons, List.not_mem_nil, or_false] at here
  rcases here with same | same | same | same | same <;> rw [same] at none <;> cases none

namespace Legible

variable {o : Object}

theorem restores_metadata (h : o.Legible numbers room) (m : Metadata) (here : o.metadata = some m) :
    Reader.Restores Payload.read Payload.toJson m m.wholeSeconds where
  notNull := by simp [Payload.toJson]
  read_back := Metadata.read_toJson (h.metadata m here)

theorem restores_spec (h : o.Legible numbers room) (v : Json) (here : o.spec = some v) :
    Reader.json.Restores id v v :=
  Reader.restores_json (h.spec v here).1 (h.spec v here).2

theorem restores_status (h : o.Legible numbers room) (v : Json) (here : o.status = some v) :
    Reader.json.Restores id v v :=
  Reader.restores_json (h.status v here).1 (h.status v here).2

theorem unknown (h : o.Legible numbers room) :
    ∀ e ∈ o.extra.entries, Record.field? fields e.1 = none := fun e he => (h.extra e he).1

end Legible

theorem fills_toJson {o : Object} (h : o.Legible numbers room) (origin : Origin) :
    Fills fields keepExtra blank (Doc.ofMembers origin o.members) o.wholeSeconds := by
  have extra : o.extra.entries.foldl (fun m e => m.insert e.1 e.2) .empty = o.extra :=
    SortedMap.ext ((SortedMap.entries_foldl_insert .empty _).trans
      (Entries.ofList_eq_self o.extra.sorted))
  simp only [members, Doc.ofMembers_append, List.append_assoc]
  refine Fills.append (fills_textMember rfl rfl rfl) ?_
  refine Fills.append (fills_textMember rfl rfl rfl) ?_
  refine Fills.append (.optional rfl h.restores_metadata rfl rfl) ?_
  refine Fills.append (.kept rfl h.restores_spec rfl rfl) ?_
  refine Fills.append (.kept rfl h.restores_status rfl rfl) ?_
  have kept : ∀ e ∈ o.extra.entries, Record.field? fields e.1 = none ∧ e.2.Ordered :=
    fun e he => ⟨(h.extra e he).1, (h.extra e he).2.ordered⟩
  have rest : Fills fields keepExtra { o.wholeSeconds with extra := .empty }
      (Doc.ofMembers origin o.extra.entries) _ := fills_extra kept _
  rwa [extra] at rest

theorem read_toJson {o : Object} (h : o.Legible numbers room) (origin : Origin) :
    Payload.read (Doc.ofJson origin (Payload.toJson o)) = .ok o.wholeSeconds := by
  have distinct : ((Doc.ofMembers origin o.members).map Prod.fst).Nodup :=
    Doc.nodup_ofMembers (keys_nodup h.unknown)
  refine Record.ofMembers_of_fills (fills_toJson h origin) distinct ?_ rfl
  simp [fields, Field.optional, Field.defaulted]

theorem fits_toJson [Number.CoversWords numbers] {o : Object} (h : o.Legible numbers room) :
    (Payload.toJson o : Json).Within numbers (room + 4) := by
  refine .object ?_
  simp only [members, List.forall_mem_append, Json.forall_mem_optional, and_assoc]
  have text (name text : String) : ∀ m ∈ textMember name text, m.2.Within numbers (room + 3) := by
    unfold textMember
    split <;> simp [Json.Within.string]
  exact ⟨text _ _, text _ _, fun m here => Metadata.fits_toJson (h.metadata m here),
    fun v here => (h.spec v here).2.fits, fun v here => (h.status v here).2.fits,
    fun e he => (h.extra e he).2.fits⟩

theorem toJson_wholeSeconds (o : Object) :
    (Payload.toJson o.wholeSeconds : Json) = Payload.toJson o := by
  have metadata : Json.optional "metadata" Payload.toJson (o.metadata.map Metadata.wholeSeconds) =
      Json.optional "metadata" Payload.toJson o.metadata := by
    cases o.metadata with
    | none => rfl
    | some m => simp [Json.optional, Metadata.toJson_wholeSeconds]
  show Json.object o.wholeSeconds.members = .object o.members
  simp only [members, wholeSeconds, metadata]

end Object

end ControllerHooks
