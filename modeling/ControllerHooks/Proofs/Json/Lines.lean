import ControllerHooks.Proofs.Decode.Records
import ControllerHooks.Proofs.Json.Parsing

/-!
# Written values are single lines

* `Bytes.IsLine`: bytes that hold one document, with no control character in them.
* `Json.chars_ge_space`: control characters do not occur in what is written, whatever the strings
  of the value hold.
* `Json.isLine_bytes`: a value with finite numbers that is not too deep is written as one line.
-/

namespace ControllerHooks

/-- The bytes are the text of one JSON document and nothing else, and no line ends in them. -/
structure Bytes.IsLine (bytes : Bytes) : Prop where
  text : ∃ s, Utf8.text? bytes = some s
  document : ∃ v : Json, Payload.decode bytes = .ok v
  unbroken : ∀ b ∈ bytes, 0x20 ≤ b

/-! ## Control characters -/

theorem Token.Written.WellFormed.text_ge_space {x : Token.Written} (h : x.WellFormed) :
    ∀ c ∈ x.text, 0x20 ≤ c.toNat := by
  have digit {c : Char} (h : c.isDigit = true) : 0x20 ≤ c.toNat := by
    have least := (Char.isDigit_iff_toNat.1 h).1
    have zero : '0'.toNat = 0x30 := rfl
    omega
  have sign : ∀ c ∈ signText x.negative, 0x20 ≤ c.toNat := by
    cases x.negative <;> simp [signText]
  have fraction : ∀ c ∈ x.fraction.elim [] fun ds => '.' :: ds, 0x20 ≤ c.toNat := by
    cases point : x.fraction with
    | none => simp
    | some ds =>
      refine List.forall_mem_cons.2 ⟨by decide, ?_⟩
      intro c hc
      exact digit ((h.fraction ds point).2 c hc)
  have exponent : ∀ c ∈ x.exponent.elim [] exponentText, 0x20 ≤ c.toNat := by
    cases x.exponent with
    | none => simp
    | some e =>
      refine List.forall_mem_cons.2 ⟨by decide, List.forall_mem_cons.2 ⟨?_, ?_⟩⟩
      · split <;> decide
      · intro c hc
        exact digit (Digits.isDigit_toDigits _ c hc)
  simp only [text, List.forall_mem_append]
  exact ⟨⟨⟨sign, fun c hc => digit (h.whole.2 c hc)⟩, fraction⟩, exponent⟩

theorem Number.text_ge_space {n : Number} (finite : n.IsFinite) : ∀ c ∈ n.text, 0x20 ≤ c.toNat := by
  obtain ⟨x, _, written⟩ := Number.writes finite
  rw [← written.text]
  exact written.wellFormed.text_ge_space

/-- What follows a backslash is itself no control character. -/
theorem Token.ge_space_of_escaped? {e c : Char} (h : escaped? (.char e) = some c) :
    0x20 ≤ e.toNat := by
  unfold escaped? at h
  split at h
  all_goals first
    | (rename_i same
       cases same
       decide)
    | cases h

namespace Json

theorem escape_ge_space (c : Char) : ∀ e ∈ escape c, 0x20 ≤ e.toNat := by
  have written := Token.escapes c
  generalize escape c = es at written
  cases written with
  | letter known => simp [Token.ge_space_of_escaped? known]
  | control small =>
    have digit : ∀ n < 16, 0x20 ≤ (Nat.digitChar n).toNat := by decide
    have high := digit (c.toNat / 16) (by omega)
    have low := digit (c.toNat % 16) (by omega)
    simp [high, low]
  | plain _ _ large => simpa using large

theorem quoted_ge_space (s : String) : ∀ c ∈ quoted s, 0x20 ≤ c.toNat := by
  have inside : ∀ c ∈ s.toList.flatMap escape, 0x20 ≤ c.toNat := by
    intro c hc
    obtain ⟨d, _, written⟩ := List.mem_flatMap.1 hc
    exact escape_ge_space d c written
  simp only [quoted, List.forall_mem_append, List.forall_mem_cons]
  exact ⟨⟨by decide, inside⟩, by decide, by simp⟩

theorem itemChars_ge_space {items : List Json} (h : ∀ x ∈ items, ∀ c ∈ x.chars, 0x20 ≤ c.toNat) :
    ∀ c ∈ itemChars items, 0x20 ≤ c.toNat := by
  induction items with
  | nil => simp [itemChars]
  | cons x more ih =>
    obtain ⟨head, tail⟩ := List.forall_mem_cons.1 h
    cases more with
    | nil => exact head
    | cons y more =>
      simp only [itemChars, List.forall_mem_append, List.forall_mem_cons]
      exact ⟨head, by decide, ih tail⟩

theorem memberChars_ge_space {members : List (String × Json)}
    (h : ∀ m ∈ members, ∀ c ∈ m.2.chars, 0x20 ≤ c.toNat) :
    ∀ c ∈ memberChars members, 0x20 ≤ c.toNat := by
  induction members with
  | nil => simp [memberChars]
  | cons m more ih =>
    obtain ⟨k, x⟩ := m
    obtain ⟨head, tail⟩ := List.forall_mem_cons.1 h
    cases more with
    | nil =>
      simp only [memberChars, List.forall_mem_append, List.forall_mem_cons]
      exact ⟨quoted_ge_space k, by decide, head⟩
    | cons y more =>
      simp only [memberChars, List.forall_mem_append, List.forall_mem_cons]
      exact ⟨⟨quoted_ge_space k, by decide, head⟩, by decide, ih tail⟩

/-- No line ends in a written value, whatever its strings and its keys hold. -/
theorem chars_ge_space {v : Json} {room : Nat} (finite : v.Within Number.IsFinite room) :
    ∀ c ∈ v.chars, 0x20 ≤ c.toNat := by
  induction finite with
  | null => simp [chars]
  | bool b => cases b <;> simp [chars]
  | number finite => exact Number.text_ge_space finite
  | string s => exact quoted_ge_space s
  | array _ ih =>
    simp only [chars, List.forall_mem_append, List.forall_mem_cons]
    exact ⟨⟨by decide, itemChars_ge_space ih⟩, by decide, by simp⟩
  | object _ ih =>
    simp only [chars, List.forall_mem_append, List.forall_mem_cons]
    exact ⟨⟨by decide, memberChars_ge_space ih⟩, by decide, by simp⟩

end Json

/-! ## Documents -/

namespace Doc

mutual

/-- A value in memory can be read, whatever the order of its members. -/
theorem exists_toJson_ofJson (origin : Origin) : (v : Json) → ∃ w, (ofJson origin v).toJson = .ok w
  | .null | .bool _ | .number _ | .string _ => ⟨_, rfl⟩
  | .array items => by
    obtain ⟨ws, read⟩ := exists_toItems_ofItems origin items
    exact ⟨.array ws, by simp [ofJson, toJson, read, Close.arrayFlaw, readFlaw]⟩
  | .object members => by
    obtain ⟨ws, read⟩ := exists_toMembers_ofMembers origin members
    exact ⟨.object (Entries.ofList ws), by
      simp [ofJson, toJson, read, Close.objectFlaw, readFlaw]⟩

theorem exists_toItems_ofItems (origin : Origin) :
    (items : List Json) → ∃ ws, toItems (ofItems origin items) = .ok ws
  | [] => ⟨[], rfl⟩
  | x :: rest => by
    obtain ⟨w, head⟩ := exists_toJson_ofJson origin x
    obtain ⟨ws, tail⟩ := exists_toItems_ofItems origin rest
    exact ⟨w :: ws, by simp [ofItems, toItems, head, tail]⟩

theorem exists_toMembers_ofMembers (origin : Origin) :
    (members : List (String × Json)) → ∃ ws, toMembers (ofMembers origin members) = .ok ws
  | [] => ⟨[], rfl⟩
  | (k, x) :: rest => by
    obtain ⟨w, head⟩ := exists_toJson_ofJson origin x
    obtain ⟨ws, tail⟩ := exists_toMembers_ofMembers origin rest
    exact ⟨(k, w) :: ws, by simp [ofMembers, toMembers, Key.read, head, tail]⟩

end

end Doc

/-- **Lines.** A value with finite numbers that is not too deep to be read is written as one line,
which holds one document. -/
theorem Json.isLine_bytes {v : Json} (finite : v.Within Number.IsFinite Document.depthLimit) :
    v.bytes.IsLine where
  text := ⟨_, Utf8.text?_encode _⟩
  document := by
    obtain ⟨w, read⟩ := Doc.exists_toJson_ofJson .text v.reread
    refine ⟨w, Payload.decode_eq_ok_iff.2 ?_⟩
    rw [Document.parse_bytes_reread finite]
    exact ⟨Reader.wellFormed_eq_ok.2 read, rfl⟩
  unbroken := Utf8.encode_ge_space (chars_ge_space finite)

end ControllerHooks
