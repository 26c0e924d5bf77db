import ControllerHooks.Utf8

/-!
# Characters survive their bytes

* `Utf8.decode_encode`: the bytes of characters are read as these characters, with no stray byte.
  So they hold a text (`Utf8.text?_encode`), and are the bytes of no others (`Utf8.encode_injective`).
* `Utf8.encode_ge_space`: without control characters there are no control bytes.
-/

namespace ControllerHooks.Utf8

/-- Characters as pieces of a text. -/
def pieces (cs : List Char) : List Piece := cs.map .char

theorem decodeFrom_append (skipped rest : Bytes) :
    decodeFrom skipped.length (skipped ++ rest) = decodeFrom 0 rest := by
  induction skipped with
  | nil => rfl
  | cons b more ih => simpa [decodeFrom] using ih

theorem head?_encodeChar_append (c : Char) (rest : Bytes) :
    head? (String.utf8EncodeChar c ++ rest) = some c := by
  have whole : (String.utf8EncodeChar c ++ rest).take 4 =
      String.utf8EncodeChar c ++ rest.take (4 - c.utf8Size) := by
    rw [List.take_append, List.take_of_length_le, String.length_utf8EncodeChar]
    rw [String.length_utf8EncodeChar]
    exact Char.utf8Size_le_four c
  rw [head?, whole, List.toByteArray_append, ByteArray.utf8DecodeChar?_utf8EncodeChar_append]

theorem decode_encodeChar_append (c : Char) (rest : Bytes) :
    decode (String.utf8EncodeChar c ++ rest) = .char c :: decode rest := by
  have head := head?_encodeChar_append c rest
  have length := String.length_utf8EncodeChar c
  cases bytes : String.utf8EncodeChar c with
  | nil => exact absurd bytes String.utf8EncodeChar_ne_nil
  | cons b more =>
    rw [bytes] at head length
    have size : c.utf8Size - 1 = more.length := by
      rw [← length, List.length_cons, Nat.add_sub_cancel]
    simp only [List.cons_append] at head
    simp only [decode, List.cons_append, decodeFrom, head, size, decodeFrom_append]

theorem decode_encode (cs : List Char) : decode (encode cs) = pieces cs := by
  induction cs with
  | nil => rfl
  | cons c rest ih =>
    rw [encode, List.flatMap_cons, decode_encodeChar_append, pieces, List.map_cons, ← pieces, ← ih,
      encode]

theorem mapM_char?_pieces (cs : List Char) : (pieces cs).mapM Piece.char? = some cs := by
  induction cs with
  | nil => rfl
  | cons c cs ih => rw [pieces, List.map_cons, List.mapM_cons, ← pieces, ih]; rfl

theorem text?_encode (cs : List Char) : text? (encode cs) = some (String.ofList cs) := by
  rw [text?, decode_encode, mapM_char?_pieces, Option.map_some]

/-- Characters are told by their bytes. -/
theorem encode_injective {cs ds : List Char} (h : encode cs = encode ds) : cs = ds := by
  have texts : text? (encode cs) = text? (encode ds) := congrArg text? h
  rw [text?_encode, text?_encode] at texts
  exact String.ofList_injective (Option.some.inj texts)

theorem encodeChar_ge_space {c : Char} (h : 0x20 ≤ c.toNat) :
    ∀ b ∈ String.utf8EncodeChar c, 0x20 ≤ b := by
  have value : 0x20 ≤ c.val.toNat := h
  simp only [UInt8.le_iff_toNat_le, String.utf8EncodeChar]
  generalize c.val.toNat = v at value
  -- All bytes of a character of more than one byte have their highest bit set.
  split
  · simp
    omega
  · split
    · simp
      omega
    · split
      · simp
        omega
      · simp
        omega

theorem encode_ge_space {cs : List Char} (h : ∀ c ∈ cs, 0x20 ≤ c.toNat) :
    ∀ b ∈ encode cs, 0x20 ≤ b := by
  intro b inside
  obtain ⟨c, hc, hb⟩ := List.mem_flatMap.1 inside
  exact encodeChar_ge_space (h c hc) b hb

end ControllerHooks.Utf8
