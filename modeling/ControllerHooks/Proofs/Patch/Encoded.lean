import ControllerHooks.Proofs.Patch.Wire

/-!
# The text of a patch

A patch travels as one JSON string in a response. Its text needs no escapes there, since the symbols
of base64 stand for themselves.

* `Base64.IsPadded.quoted_eq`: a padded text stands between quotation marks as it is.
* `EncodedPatch.carries_patch`: the text of a patch is padded, stands as it is in the response, and
  tells the patch.
-/

namespace ControllerHooks

namespace Base64

theorem IsSymbol.plus_le {c : Char} (h : IsSymbol c) : '+' ≤ c := by
  rcases h with ⟨letter, _⟩ | ⟨letter, _⟩ | ⟨digit, _⟩ | rfl | rfl
  · exact Char.le_trans (by decide) letter
  · exact Char.le_trans (by decide) letter
  · exact Char.le_trans (by decide) digit
  · decide
  · decide

/-- What is escaped is the backslash, or comes before every symbol of the alphabet. -/
theorem IsSymbol.escape_eq {c : Char} (h : IsSymbol c) : Json.escape c = [c] := by
  have low := h.plus_le
  have above {d : Char} (below : ¬ '+' ≤ d) : c ≠ d := by
    rintro rfl
    exact below low
  have backslash : c ≠ '\\' := by
    rintro rfl
    exact absurd h (by decide)
  have printed : ¬ c.toNat < 0x20 := by
    have least : 43 ≤ c.toNat := low
    omega
  simp [Json.escape, backslash, printed, above (d := '"') (by decide),
    above (d := '\x08') (by decide), above (d := '\t') (by decide), above (d := '\n') (by decide),
    above (d := '\x0c') (by decide), above (d := '\r') (by decide)]

/-- Nothing in a padded text is escaped. -/
theorem IsPadded.quoted_eq {s : String} (h : IsPadded s.toList) :
    Json.quoted s = '"' :: s.toList ++ ['"'] := by
  obtain ⟨_, symbols, pads, text, _, known⟩ := h
  have plain : ∀ c ∈ s.toList, Json.escape c = [c] := by
    rw [text]
    refine List.forall_mem_append.2 ⟨fun c hc => (known c hc).escape_eq, fun c hc => ?_⟩
    rw [List.eq_of_mem_replicate hc]
    rfl
  rw [Json.quoted, List.flatMap_congr plain, List.flatMap_singleton']

end Base64

namespace EncodedPatch

variable {patch : Patch}

theorem text_isPadded (patch : Patch) : Base64.IsPadded (ofPatch patch).text.toList := by
  simpa [ofPatch] using Base64.encode_isPadded (Payload.encode patch)

/-- The response to a mutation, with the text of the patch as it is. -/
theorem encode_ofMutation (someOp : patch ≠ []) :
    Payload.encode (AdmissionResponse.ofMutation (.patch patch)) =
      Utf8.ofString ("\x7b\"allowed\":true,\"patchType\":\"JSONPatch\",\"patch\":\"" ++
        (ofPatch patch).text ++ "\"\x7d") := by
  have response : Payload.toJson (AdmissionResponse.ofMutation (.patch patch)) =
      .object [("allowed", .bool true), ("patchType", .string "JSONPatch"),
        ("patch", .string (ofPatch patch).text)] := by
    cases patch with
    | nil => exact absurd rfl someOp
    | cons op rest => rfl
  have before : Json.quoted "allowed" = "\"allowed\"".toList ∧
      Json.quoted "patchType" = "\"patchType\"".toList ∧
      Json.quoted "JSONPatch" = "\"JSONPatch\"".toList ∧
      Json.quoted "patch" = "\"patch\"".toList := by decide
  have quoted := (text_isPadded patch).quoted_eq
  rw [Payload.encode, response]
  simp [Json.bytes, Json.chars, Json.memberChars, Utf8.ofString, before, quoted]

theorem decode_of_legible (h : ∀ op ∈ patch, op.ValueIs (Json.Legible Number.IsWord 125)) :
    (ofPatch patch).decode = .ok patch :=
  decode_ofPatch (fun op hop => (h op hop).imp fun _ legible => legible.ordered)
    fun op hop => (h op hop).imp fun _ legible => legible.fits

/-- **Wire form.** A patch whose values nest at most 125 deep, with integers of 64 bits for numbers,
is read back from its text, and no other such patch has this text. The text is padded and needs no
escapes, so the response to a mutation holds it as it is. -/
theorem carries_patch (h : ∀ op ∈ patch, op.ValueIs (Json.Legible Number.IsWord 125)) :
    (ofPatch patch).decode = .ok patch ∧
    (∀ other : Patch, (∀ op ∈ other, op.ValueIs (Json.Legible Number.IsWord 125)) →
      ofPatch other = ofPatch patch → other = patch) ∧
    Base64.IsPadded (ofPatch patch).text.toList ∧
    (Payload.toJson (ofPatch patch)).chars = '"' :: (ofPatch patch).text.toList ++ ['"'] ∧
    (patch ≠ [] → Payload.encode (AdmissionResponse.ofMutation (.patch patch)) =
      Utf8.ofString ("\x7b\"allowed\":true,\"patchType\":\"JSONPatch\",\"patch\":\"" ++
        (ofPatch patch).text ++ "\"\x7d")) := by
  refine ⟨decode_of_legible h, ?_, text_isPadded patch, (text_isPadded patch).quoted_eq,
    encode_ofMutation⟩
  intro other legible same
  have read : (ofPatch other).decode = .ok other := decode_of_legible legible
  rw [same, decode_of_legible h] at read
  exact (Except.ok.inj read).symm

/-- Operations of every kind, at places and with values that JSON escapes. -/
theorem carries_patch_of_every_kind :
    let least := Json.object [("\n", .array []), ("é\"", .ofInt (-0x8000000000000000))]
    let greatest := Json.array [.ofInt 0xffffffffffffffff, .string "😀\\"]
    let patch : Patch := [.add ⟨["a/b", "~", "-"]⟩ least, .remove ⟨["\x00"]⟩,
      .replace ⟨[]⟩ greatest, .move ⟨["x", "0"]⟩ ⟨["y"]⟩, .copy ⟨[""]⟩ ⟨["z"]⟩, .test ⟨["t"]⟩ .null]
    (∀ op ∈ patch, op.ValueIs (Json.Legible Number.IsWord 125)) ∧
      (ofPatch patch).decode = .ok patch := by
  intro least greatest patch
  have members : (Json.array []).Legible Number.IsWord 124 :=
    ⟨.array (by simp), .array (by simp)⟩
  have word (n : Int) (bounds : -0x8000000000000000 ≤ n ∧ n < 0x10000000000000000) :
      (Json.ofInt n).Legible Number.IsWord 124 := ⟨.number _, .number bounds⟩
  have low := word (-0x8000000000000000) (by decide)
  have high := word 0xffffffffffffffff (by decide)
  have added : least.Legible Number.IsWord 125 :=
    ⟨.object (by decide) (by simpa using ⟨members.ordered, low.ordered⟩),
      .object (by simpa using ⟨members.fits, low.fits⟩)⟩
  have replaced : greatest.Legible Number.IsWord 125 :=
    ⟨.array (by simpa using ⟨high.ordered, .string _⟩),
      .array (by simpa using ⟨high.fits, .string _⟩)⟩
  have legible : ∀ op ∈ patch, op.ValueIs (Json.Legible Number.IsWord 125) := by
    simpa [patch, Operation.ValueIs] using ⟨added, replaced, .null, .null⟩
  exact ⟨legible, (carries_patch legible).1⟩

end EncodedPatch

end ControllerHooks
