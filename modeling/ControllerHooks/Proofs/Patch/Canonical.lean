import ControllerHooks.Patch.Encoded
import ControllerHooks.Proofs.Base64.Bits
import ControllerHooks.Proofs.Utf8

/-!
# The text of a patch is canonical

The reader of base64 looks at a text group by group and has a check for each way to go wrong. What
passes all the checks is what the writer would have written.

* `Base64.eq_encodeBytes_of_decode`: a text that is read is the text of the bytes that it gives.
* `Base64.decode_ofString_iff`: so a text is read as the bytes that it spells.
* `EncodedPatch.text_is_canonical`: a patch passes this stage exactly when its text spells some
  bytes, and these, no others, are read as JSON.
-/

namespace ControllerHooks

namespace Base64

/-! ## Symbols -/

theorem eq_symbolByte {byte : UInt8} {v : Nat} (h : value? byte = some v) :
    v < 64 ∧ byte = symbolByte v := by
  have all : ∀ n < 256, ∀ v ∈ value? (UInt8.ofNat n),
      v < 64 ∧ UInt8.ofNat n = symbolByte v := by decide +kernel
  have one := all byte.toNat byte.toNat_lt v
  rw [UInt8.ofNat_toNat] at one
  exact one h

theorem valueAt_eq_ok {offset : Nat} {byte : UInt8} {v : Nat} (h : valueAt offset byte = .ok v) :
    v < 64 ∧ byte = symbolByte v := by
  unfold valueAt at h
  split at h
  · next found =>
    cases h
    exact eq_symbolByte found
  · cases h

/-- What is read in the last group are symbols, and then only padding signs. -/
theorem lastSymbols_eq_ok {start place : Nat} {padded : Option Nat} {group : Bytes}
    {values : List Nat} {pads : Nat}
    (h : lastSymbols start place padded group = .ok (values, pads)) :
    group = values.map symbolByte ++ List.replicate pads pad ∧ (∀ v ∈ values, v < 64) ∧
      (padded.isSome → values = []) := by
  induction group generalizing place padded values pads with
  | nil =>
    cases h
    exact ⟨rfl, by simp, fun _ => rfl⟩
  | cons byte rest ih =>
    unfold lastSymbols at h
    by_cases sign : byte = pad
    · rw [if_pos sign] at h
      by_cases early : place < 2
      · rw [if_pos early] at h
        cases h
      · rw [if_neg early] at h
        obtain ⟨⟨later, more⟩, read, result⟩ := bind_eq_ok.1 h
        cases result
        obtain ⟨group, _, signs⟩ := ih read
        obtain rfl : values = [] := signs (by cases padded <;> rfl)
        refine ⟨?_, by simp, fun _ => rfl⟩
        rw [group, sign, List.replicate_succ]
        rfl
    · rw [if_neg sign] at h
      cases padded with
      | some first => cases h
      | none =>
        obtain ⟨v, symbol, read⟩ := bind_eq_ok.1 h
        obtain ⟨⟨later, more⟩, read, result⟩ := bind_eq_ok.1 read
        cases result
        obtain ⟨small, symbol⟩ := valueAt_eq_ok symbol
        obtain ⟨group, bounds, _⟩ := ih read
        refine ⟨?_, List.forall_mem_cons.2 ⟨small, bounds⟩, by simp⟩
        rw [group, symbol, List.map_cons, List.cons_append]

/-! ## Groups

Bytes put together from the values of symbols are written with these symbols. -/

section
variable {a b c d : Nat}

theorem toNat_first (ha : a < 64) (hb : b < 64) :
    (UInt8.ofNat (a * 4 + b / 16)).toNat = a * 4 + b / 16 := by
  have bound : a * 4 + b / 16 < 256 := by omega
  exact UInt8.toNat_ofNat_of_lt' bound

theorem toNat_second (hc : c < 64) :
    (UInt8.ofNat (b % 16 * 16 + c / 4)).toNat = b % 16 * 16 + c / 4 := by
  have bound : b % 16 * 16 + c / 4 < 256 := by omega
  exact UInt8.toNat_ofNat_of_lt' bound

theorem toNat_third (hd : d < 64) :
    (UInt8.ofNat (c % 4 * 64 + d)).toNat = c % 4 * 64 + d := by
  have bound : c % 4 * 64 + d < 256 := by omega
  exact UInt8.toNat_ofNat_of_lt' bound

variable (ha : a < 64) (hb : b < 64)
include ha hb

theorem encodeBytes_joined (hc : c < 64) (hd : d < 64) (rest : Bytes) :
    encodeBytes (UInt8.ofNat (a * 4 + b / 16) :: UInt8.ofNat (b % 16 * 16 + c / 4) ::
        UInt8.ofNat (c % 4 * 64 + d) :: rest) =
      symbolByte a :: symbolByte b :: symbolByte c :: symbolByte d :: encodeBytes rest := by
  have first : (a * 4 + b / 16) / 4 = a := by omega
  have second : (a * 4 + b / 16) % 4 * 16 + (b % 16 * 16 + c / 4) / 16 = b := by omega
  have third : (b % 16 * 16 + c / 4) % 16 * 4 + (c % 4 * 64 + d) / 64 = c := by omega
  have fourth : (c % 4 * 64 + d) % 64 = d := by omega
  rw [encodeBytes_group, toNat_first ha hb, toNat_second hc, toNat_third hd, first, second,
    third, fourth]

theorem encodeBytes_joinedTwo (hc : c < 64) (even : c % 4 = 0) :
    encodeBytes [UInt8.ofNat (a * 4 + b / 16), UInt8.ofNat (b % 16 * 16 + c / 4)] =
      [symbolByte a, symbolByte b, symbolByte c, pad] := by
  have first : (a * 4 + b / 16) / 4 = a := by omega
  have second : (a * 4 + b / 16) % 4 * 16 + (b % 16 * 16 + c / 4) / 16 = b := by omega
  have third : (b % 16 * 16 + c / 4) % 16 * 4 = c := by omega
  rw [encodeBytes_two, toNat_first ha hb, toNat_second hc, first, second, third]

theorem encodeBytes_joinedOne (even : b % 16 = 0) :
    encodeBytes [UInt8.ofNat (a * 4 + b / 16)] = [symbolByte a, symbolByte b, pad, pad] := by
  have first : (a * 4 + b / 16) / 4 = a := by omega
  have second : (a * 4 + b / 16) % 4 * 16 = b := by omega
  rw [encodeBytes_one, toNat_first ha hb, first, second]

end

/-- A last group that is read is the group of its bytes: it has the padding signs that the writer
adds after that many symbols, and no bits that are left over. -/
theorem lastGroup_eq_ok {start : Nat} {group bytes : Bytes}
    (h : lastGroup start group = .ok bytes) : group = encodeBytes bytes := by
  obtain ⟨⟨values, pads⟩, read, h⟩ := bind_eq_ok.1 h
  obtain ⟨rfl, bounds, _⟩ := lastSymbols_eq_ok read
  dsimp only at h
  split at h
  · cases h
  rename_i many
  split at h
  · cases h
  rename_i full
  have length : values.length + pads = 4 := Decidable.not_not.1 full
  rcases values with _ | ⟨a, _ | ⟨b, _ | ⟨c, _ | ⟨d, more⟩⟩⟩⟩
  · exact absurd Nat.zero_lt_two many
  · exact absurd Nat.one_lt_two many
  · obtain ⟨ha, hb⟩ : a < 64 ∧ b < 64 := by simpa using bounds
    obtain rfl : pads = 2 := Nat.add_left_cancel (n := 2) length
    dsimp only at h
    split at h
    · cases h
    rename_i even
    cases h
    exact (encodeBytes_joinedOne ha hb (Decidable.not_not.1 even)).symm
  · obtain ⟨ha, hb, hc⟩ : a < 64 ∧ b < 64 ∧ c < 64 := by simpa using bounds
    obtain rfl : pads = 1 := Nat.add_left_cancel (n := 3) length
    dsimp only at h
    split at h
    · cases h
    rename_i even
    cases h
    exact (encodeBytes_joinedTwo ha hb hc (Decidable.not_not.1 even)).symm
  · obtain ⟨ha, hb, hc, hd, _⟩ : a < 64 ∧ b < 64 ∧ c < 64 ∧ d < 64 ∧ ∀ v ∈ more, v < 64 := by
      simpa using bounds
    obtain ⟨rfl, rfl⟩ : more = [] ∧ pads = 0 := by
      simpa [Nat.add_right_comm] using length
    cases h
    exact (encodeBytes_joined ha hb hc hd []).symm

theorem eq_encodeBytes_of_decodeFrom {start : Nat} {text bytes : Bytes}
    (h : decodeFrom start text = .ok bytes) : text = encodeBytes bytes := by
  fun_induction decodeFrom start text generalizing bytes with
  | case1 start =>
    cases h
    rfl
  | case2 start a b c d e rest ih =>
    obtain ⟨va, ha, h⟩ := bind_eq_ok.1 h
    obtain ⟨vb, hb, h⟩ := bind_eq_ok.1 h
    obtain ⟨vc, hc, h⟩ := bind_eq_ok.1 h
    obtain ⟨vd, hd, h⟩ := bind_eq_ok.1 h
    obtain ⟨later, read, h⟩ := bind_eq_ok.1 h
    cases h
    obtain ⟨la, rfl⟩ := valueAt_eq_ok ha
    obtain ⟨lb, rfl⟩ := valueAt_eq_ok hb
    obtain ⟨lc, rfl⟩ := valueAt_eq_ok hc
    obtain ⟨ld, rfl⟩ := valueAt_eq_ok hd
    rw [encodeBytes_joined la lb lc ld, ih read]
  | case3 start group => exact lastGroup_eq_ok h

theorem eq_encodeBytes_of_decode {text bytes : Bytes} (h : decode text = .ok bytes) :
    text = encodeBytes bytes := by
  have groups : decodeFrom 0 text = .ok bytes := by
    unfold decode at h
    dsimp only at h
    split at h
    · split at h
      · obtain ⟨_, _, read⟩ := bind_eq_ok.1 h
        exact read
      · exact h
    · exact h
  exact eq_encodeBytes_of_decodeFrom groups

/-- **Base64.** A text is read as the bytes that it spells, and one that spells none is refused. -/
theorem decode_ofString_iff {s : String} {bytes : Bytes} :
    decode (Utf8.ofString s) = .ok bytes ↔ Spells s.toList bytes := by
  rw [spells_iff]
  constructor
  · intro h
    exact Utf8.encode_injective (eq_encodeBytes_of_decode h)
  · intro h
    rw [← String.ofList_toList (s := s), h]
    exact decode_encode bytes

end Base64

namespace EncodedPatch

/-- The text is refused as base64, so that no JSON is looked at. -/
def IsGarbled (encoded : EncodedPatch) : Prop :=
  ∃ e, encoded.decode = .error (.base64 e)

variable {encoded : EncodedPatch}

theorem decode_of_spells {bytes : Bytes} (h : Base64.Spells encoded.text.toList bytes) :
    encoded.decode = (Payload.decode bytes).mapError .json := by
  rw [decode, Base64.decode_ofString_iff.2 h, ok_mapError, ok_bind]

theorem isGarbled_iff : encoded.IsGarbled ↔ ¬ ∃ bytes, Base64.Spells encoded.text.toList bytes := by
  constructor
  · rintro ⟨e, refused⟩ ⟨bytes, spelled⟩
    rw [decode_of_spells spelled] at refused
    cases result : (Payload.decode bytes : Except DecodeError Patch) with
    | ok patch => rw [result] at refused; cases refused
    | error e => rw [result] at refused; cases refused
  · intro unspelled
    cases read : Base64.decode (Utf8.ofString encoded.text) with
    | ok bytes => exact absurd ⟨bytes, Base64.decode_ofString_iff.1 read⟩ unspelled
    | error e => exact ⟨e, by rw [decode, read, error_mapError, error_bind]⟩

/-- **One text.** The base64 stage passes a text exactly when it is the padded standard encoding of
some bytes. These are then the only ones with this text, and it is their only text: it is what is
written for them. They are what is read as JSON. A text is refused when its length is not full
groups, when it holds anything but symbols and then at most two padding signs, or when its last
symbol has bits left over that are not zero. -/
theorem text_is_canonical (encoded : EncodedPatch) :
    (¬ encoded.IsGarbled ↔ ∃ bytes, Base64.Spells encoded.text.toList bytes) ∧
    (∀ bytes, Base64.Spells encoded.text.toList bytes →
      (∀ others, Base64.Spells encoded.text.toList others → others = bytes) ∧
      (∀ other : EncodedPatch, Base64.Spells other.text.toList bytes → other = encoded) ∧
      String.ofList (Base64.encode bytes) = encoded.text ∧
      encoded.decode = (Payload.decode bytes).mapError .json) ∧
    (¬ Base64.IsPadded encoded.text.toList → encoded.IsGarbled) ∧
    (∀ (front : List Char) (six : Fin 64) (pads : Nat),
      encoded.text.toList = front ++ Base64.letter six :: List.replicate pads '=' →
      six.val % 4 ^ pads ≠ 0 → encoded.IsGarbled) := by
  refine ⟨?_, ?_, ?_, ?_⟩
  · rw [isGarbled_iff, Classical.not_not]
  · intro bytes spelled
    have written := Base64.spells_iff.1 spelled
    refine ⟨fun others => spelled.unique, ?_, ?_, decode_of_spells spelled⟩
    · intro other also
      have texts : other.text.toList = encoded.text.toList :=
        (Base64.spells_iff.1 also).trans written.symm
      cases other
      cases encoded
      rw [mk.injEq]
      exact String.toList_injective texts
    · rw [← written, String.ofList_toList]
  · intro unpadded
    rw [isGarbled_iff]
    rintro ⟨bytes, spelled⟩
    exact unpadded spelled.isPadded
  · intro front six pads text left
    rw [isGarbled_iff]
    rintro ⟨bytes, spelled⟩
    rw [text] at spelled
    exact left spelled.last_complete

/-- The text of no operations, and texts that differ from it in the bits left over, in the padding
and in a symbol. -/
theorem text_is_canonical_of_no_operations :
    Base64.Spells "W10=".toList [0x5b, 0x5d] ∧ (⟨"W10="⟩ : EncodedPatch).decode = .ok [] ∧
      (⟨"W11="⟩ : EncodedPatch).IsGarbled ∧ (⟨"W10"⟩ : EncodedPatch).IsGarbled ∧
      (⟨"W-0="⟩ : EncodedPatch).IsGarbled := by
  have spelled : Base64.Spells "W10=".toList [0x5b, 0x5d] :=
    ⟨⟨[22, 53, 52], 2, 1, by decide, by decide, by decide, by decide, by decide⟩⟩
  have read := ((text_is_canonical ⟨"W10="⟩).2.1 _ spelled).2.2.2
  have stray : ¬ Base64.IsPadded "W-0=".toList := by
    rintro ⟨_, symbols, pads, text, _, known⟩
    have inside : '-' ∈ symbols ++ List.replicate pads '=' := by
      rw [← text]
      decide
    rcases List.mem_append.1 inside with symbol | sign
    · exact absurd (known _ symbol) (by decide)
    · exact absurd (List.eq_of_mem_replicate sign) (by decide)
  refine ⟨spelled, read, ?_, ?_, ?_⟩
  · exact (text_is_canonical ⟨"W11="⟩).2.2.2 ['W', '1'] 53 1 (by decide) (by decide)
  · exact (text_is_canonical ⟨"W10"⟩).2.2.1 fun padded => absurd padded.1 (by decide)
  · exact (text_is_canonical ⟨"W-0="⟩).2.2.1 stray

end EncodedPatch

end ControllerHooks
