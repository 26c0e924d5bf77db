import ControllerHooks.Admission.Response
import ControllerHooks.Proofs.Base64
import ControllerHooks.Proofs.Codec.Values
import ControllerHooks.Proofs.Json.Parsing
import ControllerHooks.Proofs.Json.Pointers

/-!
# Patches on the wire

* `Operation.legible_of_read`: the value of an operation that is read can be written and read again.
* `Operation.read_toJson`: an operation is read back from its document, of whatever kind it is.
* `EncodedPatch.decode_ofPatch`: a patch is read back from the text that carries it.
* `AdmissionResponse.decodedPatch_ofMutation`: a response carries the patch of a mutation, and
  none for an empty one.
-/

namespace ControllerHooks

namespace Operation

/-- What holds of the value of an operation, if it has one. -/
def ValueIs (P : Json → Prop) : Operation → Prop
  | add _ value | replace _ value | test _ value => P value
  | remove _ | move _ _ | copy _ _ => True

theorem ValueIs.imp {P Q : Json → Prop} {op : Operation} (h : op.ValueIs P) (imp : ∀ x, P x → Q x) :
    op.ValueIs Q := by
  cases op with
  | add _ value | replace _ value | test _ value => exact imp value h
  | remove | move | copy => trivial

theorem readKind_name (kind : Kind) : readKind (.string kind.name) = .ok kind := by
  cases kind <;> rfl

theorem pointer_text (p : Pointer) : Reader.pointer (.string p.text) = .ok p := by
  simp [Reader.pointer, Reader.string, Pointer.parse_text]

section
variable {origin : Origin} {name : String} {path source : Pointer} {value : Json}

open Record (Fills)

theorem read_path :
    Record.read name [pathField] ⟨⟨[]⟩, ⟨[]⟩, .null⟩
      (Doc.ofJson origin (.object [("path", .string path.text)])) = .ok ⟨⟨[]⟩, path, .null⟩ := by
  have fills : Fills [pathField] Record.ignore ⟨⟨[]⟩, ⟨[]⟩, .null⟩
      (Doc.ofMembers origin [("path", .string path.text)]) ⟨⟨[]⟩, path, .null⟩ :=
    .given rfl (pointer_text path) rfl
  exact Record.ofMembers_of_fills fills (by simp [Doc.ofMembers])
    (by simp [pathField, Field.required, Doc.ofMembers]) rfl

theorem read_sourcePath :
    Record.read name [sourceField, pathField] ⟨⟨[]⟩, ⟨[]⟩, .null⟩
      (Doc.ofJson origin (.object [("from", .string source.text), ("path", .string path.text)])) =
      .ok ⟨source, path, .null⟩ := by
  have fills : Fills [sourceField, pathField] Record.ignore ⟨⟨[]⟩, ⟨[]⟩, .null⟩
      (Doc.ofMembers origin [("from", .string source.text)] ++
        Doc.ofMembers origin [("path", .string path.text)]) ⟨source, path, .null⟩ :=
    .append (.given rfl (pointer_text source) rfl) (.given rfl (pointer_text path) rfl)
  exact Record.ofMembers_of_fills fills (by simp [Doc.ofMembers])
    (by simp [sourceField, pathField, Field.required, Doc.ofMembers]) rfl

theorem read_pathValue (ordered : value.Ordered) :
    Record.read name [pathField, valueField] ⟨⟨[]⟩, ⟨[]⟩, .null⟩
      (Doc.ofJson origin (.object [("path", .string path.text), ("value", value)])) =
      .ok ⟨⟨[]⟩, path, value⟩ := by
  have fills : Fills [pathField, valueField] Record.ignore ⟨⟨[]⟩, ⟨[]⟩, .null⟩
      (Doc.ofMembers origin [("path", .string path.text)] ++
        Doc.ofMembers origin [("value", value)]) ⟨⟨[]⟩, path, value⟩ :=
    .append (.given rfl (pointer_text path) rfl)
      (.given rfl (Reader.json_ofJson ordered origin) rfl)
  exact Record.ofMembers_of_fills fills (by simp [Doc.ofMembers])
    (by simp [pathField, valueField, Field.required, Doc.ofMembers]) rfl

end

/-- The operation is put together from the members that were kept aside. -/
theorem read_operands {op : Operation} (ordered : op.ValueIs Json.Ordered) (origin : Origin) :
    op.kind.read (Doc.ofJson origin (.object op.operands)) = .ok op := by
  cases op with
  | add path value | replace path value | test path value =>
    simp [Kind.read, kind, Kind.fields, operands, read_pathValue ordered, Kind.build]
  | remove path => simp [Kind.read, kind, Kind.fields, operands, read_path, Kind.build]
  | move source path | copy source path =>
    simp [Kind.read, kind, Kind.fields, operands, read_sourcePath, Kind.build]

/-- Members beside `op` are kept as they are. -/
theorem keepMembers {kind : Kind} {origin : Origin} {members kept : List (String × Json)}
    (h : ∀ m ∈ members, m.1 ≠ "op" ∧ m.2.Ordered) :
    (Doc.ofMembers origin members).foldlM keepMember (some kind, kept) =
      .ok (some kind, kept ++ members) := by
  induction members generalizing kept with
  | nil => simp [Doc.ofMembers]
  | cons m rest ih =>
    obtain ⟨⟨other, ordered⟩, tail⟩ := List.forall_mem_cons.1 h
    simp [Doc.ofMembers, keepMember, Reader.wellFormed, Key.read, other,
      Reader.json_ofJson ordered, ih tail]

theorem operands_keep {op : Operation} (ordered : op.ValueIs Json.Ordered) :
    ∀ m ∈ op.operands, m.1 ≠ "op" ∧ m.2.Ordered := by
  cases op with
  | add path value | replace path value | test path value =>
    simpa [operands] using ⟨Json.Ordered.string _, ordered⟩
  | remove path => simpa [operands] using Json.Ordered.string _
  | move source path | copy source path =>
    simpa [operands] using ⟨Json.Ordered.string _, Json.Ordered.string _⟩

/-- **Operations.** An operation is read back from its document. -/
theorem read_toJson {op : Operation} (ordered : op.ValueIs Json.Ordered) (origin : Origin) :
    Payload.read (Doc.ofJson origin (Payload.toJson op)) = .ok op := by
  have kinds : keepMember (none, []) (.text "op", .string op.kind.name) =
      .ok (some op.kind, []) := by
    simp [keepMember, Reader.wellFormed, Key.read, readKind_name]
  have kept : (Doc.ofMembers origin op.operands).foldlM keepMember (some op.kind, []) =
      .ok (some op.kind, [] ++ op.operands) := keepMembers (operands_keep ordered)
  have built := read_operands ordered .buffer
  rw [Doc.ofJson] at built
  simp [Payload.read, Payload.toJson, read, Doc.ofJson, Doc.ofMembers, kinds, kept,
    Reader.wellFormed, Doc.readFlaw, Close.objectFlaw, built]

theorem toJson_fits {op : Operation} {room : Nat} (fits : op.ValueIs (Json.Fits room)) :
    (Payload.toJson op).Fits (room + 1) := by
  refine .object ?_
  cases op with
  | add path value | replace path value | test path value =>
    simpa [operands] using ⟨.string _, .string _, fits⟩
  | remove path => simpa [operands] using ⟨.string _, .string _⟩
  | move source path | copy source path => simpa [operands] using ⟨.string _, .string _, .string _⟩

/-! ## What is read -/

section
variable {numbers : Number → Prop} {room : Nat}

theorem mem_kindFields {kind : Kind} {f : Field Draft} (h : f ∈ kind.fields) :
    f = pathField ∨ f = sourceField ∨ f = valueField := by
  cases kind <;> simp only [Kind.fields, List.mem_cons, List.not_mem_nil, or_false] at h <;> grind

theorem field?_kindFields (kind : Kind) :
    ∀ f ∈ kind.fields, Record.field? kind.fields f.name = some f := by
  cases kind <;>
    simp [Kind.fields, Record.field?, pathField, sourceField, valueField, Field.required]

/-- The value of an operation is what was kept aside for it. -/
theorem Kind.legible_of_read {kind : Kind} {d : Doc} {op : Operation} (h : kind.read d = .ok op)
    (fits : d.Within numbers (room + 1)) : op.ValueIs (Json.Legible numbers room) := by
  obtain ⟨draft, read, built⟩ := bind_eq_ok.1 h
  obtain rfl := Except.ok.inj built
  obtain ⟨members, fills, inside⟩ := Record.fills_of_read (field?_kindFields kind) read
  have fill : ∀ f ∈ kind.fields, ∀ {r d next}, d.Within numbers room →
      r.value.Legible numbers room → f.fill r d = .ok next → next.value.Legible numbers room := by
    intro f hf r d next good known filled
    rcases mem_kindFields hf with rfl | rfl | rfl
    · obtain ⟨_, _, rfl⟩ := map_eq_ok.1 filled
      exact known
    · obtain ⟨_, _, rfl⟩ := map_eq_ok.1 filled
      exact known
    · obtain ⟨v, read, rfl⟩ := map_eq_ok.1 filled
      exact Reader.json_legible read good
  have value : draft.value.Legible numbers room := by
    refine fills.invariant fill ?_ (inside numbers room fits) ⟨.null, .null⟩
    intro r name d next _ _ known kept
    rwa [(Record.ignore_eq_ok_iff.1 kept).2]
  cases kind with
  | add | replace | test => exact value
  | remove | move | copy => trivial

/-- What is kept aside is no deeper than where it was found. -/
theorem within_of_keepMembers {members : List (Key × Doc)}
    {soFar last : Option Kind × List (String × Json)}
    (h : members.foldlM keepMember soFar = .ok last)
    (fit : ∀ m ∈ members, m.2.Within numbers room)
    (start : ∀ m ∈ soFar.2, m.2.Within numbers room) :
    ∀ m ∈ last.2, m.2.Within numbers room := by
  induction members generalizing soFar with
  | nil =>
    obtain rfl := Except.ok.inj h
    exact start
  | cons m rest ih =>
    obtain ⟨next, kept, later⟩ := bind_eq_ok.1 (by rwa [List.foldlM_cons] at h)
    obtain ⟨here, fit⟩ := List.forall_mem_cons.1 fit
    refine ih later fit ?_
    obtain ⟨name, _, kept⟩ := bind_eq_ok.1 kept
    split at kept
    · split at kept
      · cases kept
      · obtain ⟨kind, _, same⟩ := bind_eq_ok.1 kept
        obtain rfl := Except.ok.inj same
        exact start
    · obtain ⟨v, read, same⟩ := bind_eq_ok.1 kept
      obtain rfl := Except.ok.inj same
      intro m hm
      rcases List.mem_append.1 hm with hm | hm
      · exact start m hm
      · obtain rfl := List.mem_singleton.1 hm
        exact (Reader.json_legible read here).fits

theorem legible_of_read {d : Doc} {op : Operation} (h : Payload.read d = .ok op)
    (fits : d.Within numbers (room + 1)) : op.ValueIs (Json.Legible numbers room) := by
  cases fits with
  | object fit close =>
    obtain ⟨⟨kind, kept⟩, folded, rest⟩ := bind_eq_ok.1 h
    obtain ⟨_, _, rest⟩ := bind_eq_ok.1 rest
    have inside := within_of_keepMembers folded fit (by simp)
    cases kind with
    | none => cases rest
    | some kind =>
      refine Kind.legible_of_read rest (.object ?_ _)
      intro m hm
      obtain ⟨e, he, rfl⟩ := Doc.mem_ofMembers.1 hm
      exact Doc.within_ofJson (inside e he) _
  | @array room items fit close =>
    cases items with
    | nil =>
      obtain ⟨_, _, failed⟩ := bind_eq_ok.1 h
      cases failed
    | cons first more =>
      obtain ⟨kind, _, rest⟩ := bind_eq_ok.1 h
      obtain ⟨kept, read, rest⟩ := bind_eq_ok.1 rest
      obtain ⟨_, _, rest⟩ := bind_eq_ok.1 rest
      have inside := Doc.toItems_within more (List.forall_mem_cons.1 fit).2
        (Reader.wellFormed_eq_ok.1 read)
      refine Kind.legible_of_read rest (.array ?_ _)
      intro d hd
      obtain ⟨x, hx, rfl⟩ := Doc.mem_ofItems.1 hd
      exact Doc.within_ofJson (inside x hx) _
  | flawed | null | bool | number | string | buried => cases h

end

end Operation

namespace EncodedPatch

theorem read_patch {patch : Patch} (ordered : ∀ op ∈ patch, op.ValueIs Json.Ordered)
    (origin : Origin) :
    Payload.read (Doc.ofJson origin (Payload.toJson patch)) = .ok patch := by
  have each : ∀ op ∈ patch, Payload.read (Doc.ofJson origin (Payload.toJson op)) = .ok (id op) := by
    intro op hop
    exact Operation.read_toJson (ordered op hop) origin
  have whole : Payload.read (Doc.ofJson origin (Payload.toJson patch)) = .ok (patch.map id) :=
    Reader.list_ofJson each
  rwa [List.map_id] at whole

/-- **Patches.** A patch whose values nest at most 125 deep is read back from its text. -/
theorem decode_ofPatch {patch : Patch} (ordered : ∀ op ∈ patch, op.ValueIs Json.Ordered)
    (fits : ∀ op ∈ patch, op.ValueIs (Json.Fits 125)) : (ofPatch patch).decode = .ok patch := by
  have deep : (Payload.toJson patch).Fits Document.depthLimit := by
    apply Json.Within.array
    intro v hv
    obtain ⟨op, hop, rfl⟩ := List.mem_map.1 hv
    exact Operation.toJson_fits (fits op hop)
  have read : (Payload.decode (Payload.encode patch) : Except DecodeError Patch) = .ok patch :=
    (Payload.decode_bytes deep).trans (read_patch ordered .text)
  simp [decode, ofPatch, Base64.decode_encode, read]

end EncodedPatch

namespace AdmissionResponse

theorem decodedPatch_ofMutation {patch : Patch} (some_op : patch ≠ [])
    (ordered : ∀ op ∈ patch, op.ValueIs Json.Ordered)
    (fits : ∀ op ∈ patch, op.ValueIs (Json.Fits 125)) :
    (ofMutation (.patch patch)).decodedPatch = .ok (some patch) := by
  cases patch with
  | nil => exact absurd rfl some_op
  | cons op rest => simp [ofMutation, decodedPatch, EncodedPatch.decode_ofPatch ordered fits]

end AdmissionResponse

end ControllerHooks
