import ControllerHooks.Base64
import ControllerHooks.Proofs.Outcome

/-!
# Base64 is undone

* `Base64.decode_encode`: what is written for some bytes stands for these bytes. The groups are read
  back one by one; a group that is not full is the last one.
* `Base64.encode_isPadded`: a text is made of symbols of the alphabet, and padded.
-/

namespace ControllerHooks.Base64

/-- The byte of a symbol. -/
def symbolByte (n : Nat) : UInt8 := UInt8.ofNat (symbol n).toNat

theorem utf8_symbol : ∀ n < 64, String.utf8EncodeChar (symbol n) = [symbolByte n] := by
  decide

theorem value?_symbolByte : ∀ n < 64, value? (symbolByte n) = some n := by
  decide

theorem symbolByte_ne_pad : ∀ n < 64, symbolByte n ≠ pad := by
  decide

theorem valueAt_symbolByte {offset n : Nat} (h : n < 64) :
    valueAt offset (symbolByte n) = .ok n := by
  simp [valueAt, value?_symbolByte n h]

/-- The bytes of the symbols for some bytes. -/
def encodeBytes (bytes : Bytes) : Bytes := Utf8.encode (encode bytes)

section
variable (a b c : UInt8)

/-- The first symbol of a group holds six bits of the first byte. -/
theorem first_lt : a.toNat / 4 < 64 := by have := a.toNat_lt; omega

theorem second_lt : a.toNat % 4 * 16 + b.toNat / 16 < 64 := by have := b.toNat_lt; omega

theorem third_lt : b.toNat % 16 * 4 + c.toNat / 64 < 64 := by have := c.toNat_lt; omega

theorem fourth_lt : c.toNat % 64 < 64 := by omega

theorem first_byte (low : Nat) (h : low < 16) :
    UInt8.ofNat (a.toNat / 4 * 4 + (a.toNat % 4 * 16 + low) / 16) = a := by
  have value : a.toNat / 4 * 4 + (a.toNat % 4 * 16 + low) / 16 = a.toNat := by omega
  rw [value, UInt8.ofNat_toNat]

theorem second_byte (high low : Nat) (h : low < 4) :
    UInt8.ofNat ((high * 16 + b.toNat / 16) % 16 * 16 + (b.toNat % 16 * 4 + low) / 4) = b := by
  have bound := b.toNat_lt
  have value : (high * 16 + b.toNat / 16) % 16 * 16 + (b.toNat % 16 * 4 + low) / 4 = b.toNat := by
    omega
  rw [value, UInt8.ofNat_toNat]

theorem third_byte (high : Nat) :
    UInt8.ofNat ((high * 4 + c.toNat / 64) % 4 * 64 + c.toNat % 64) = c := by
  have bound := c.toNat_lt
  have value : (high * 4 + c.toNat / 64) % 4 * 64 + c.toNat % 64 = c.toNat := by omega
  rw [value, UInt8.ofNat_toNat]

theorem encodeBytes_group (rest : Bytes) :
    encodeBytes (a :: b :: c :: rest) =
      symbolByte (a.toNat / 4) :: symbolByte (a.toNat % 4 * 16 + b.toNat / 16) ::
        symbolByte (b.toNat % 16 * 4 + c.toNat / 64) :: symbolByte (c.toNat % 64) ::
        encodeBytes rest := by
  simp [encodeBytes, encode, Utf8.encode, utf8_symbol _ (first_lt a), utf8_symbol _ (second_lt a b),
    utf8_symbol _ (third_lt b c), utf8_symbol _ (fourth_lt c)]

theorem encodeBytes_two :
    encodeBytes [a, b] =
      [symbolByte (a.toNat / 4), symbolByte (a.toNat % 4 * 16 + b.toNat / 16),
        symbolByte (b.toNat % 16 * 4), pad] := by
  have last : b.toNat % 16 * 4 < 64 := by omega
  have sign : String.utf8EncodeChar '=' = [pad] := by decide
  simp [encodeBytes, encode, Utf8.encode, utf8_symbol _ (first_lt a), utf8_symbol _ (second_lt a b),
    utf8_symbol _ last, sign]

theorem encodeBytes_one :
    encodeBytes [a] =
      [symbolByte (a.toNat / 4), symbolByte (a.toNat % 4 * 16), pad, pad] := by
  have last : a.toNat % 4 * 16 < 64 := by omega
  have sign : String.utf8EncodeChar '=' = [pad] := by decide
  simp [encodeBytes, encode, Utf8.encode, utf8_symbol _ (first_lt a), utf8_symbol _ last, sign]

/-! ## Groups -/

theorem lastSymbols_symbol {start place n : Nat} (h : n < 64) {rest : Bytes} {values : List Nat}
    {pads : Nat} (later : lastSymbols start (place + 1) none rest = .ok (values, pads)) :
    lastSymbols start place none (symbolByte n :: rest) = .ok (n :: values, pads) := by
  simp [lastSymbols, symbolByte_ne_pad n h, valueAt_symbolByte h, later]

theorem lastSymbols_pads (start place count : Nat) (padded : Option Nat) (h : 2 ≤ place) :
    lastSymbols start place padded (List.replicate count pad) = .ok ([], count) := by
  induction count generalizing place padded with
  | zero => rfl
  | succ count ih =>
    have late : ¬ place < 2 := by omega
    simp [List.replicate_succ, lastSymbols, late, ih (place + 1) _ (by omega)]

theorem lastGroup_three (start : Nat) :
    lastGroup start (encodeBytes [a, b, c]) = .ok [a, b, c] := by
  have symbols : lastSymbols start 0 none (encodeBytes [a, b, c]) =
      .ok ([a.toNat / 4, a.toNat % 4 * 16 + b.toNat / 16, b.toNat % 16 * 4 + c.toNat / 64,
        c.toNat % 64], 0) := by
    rw [encodeBytes_group]
    exact lastSymbols_symbol (first_lt a) (lastSymbols_symbol (second_lt a b)
      (lastSymbols_symbol (third_lt b c) (lastSymbols_symbol (fourth_lt c) rfl)))
  have low : b.toNat / 16 < 16 := by have := b.toNat_lt; omega
  have low' : c.toNat / 64 < 4 := by have := c.toNat_lt; omega
  simp only [lastGroup, symbols, ok_bind, List.length_cons, List.length_nil, Nat.reduceAdd,
    Nat.reduceLT, if_false, ne_eq, not_true_eq_false, pure_eq_ok_value, first_byte a _ low,
    second_byte b _ _ low', third_byte]

theorem lastGroup_two (start : Nat) : lastGroup start (encodeBytes [a, b]) = .ok [a, b] := by
  have last : b.toNat % 16 * 4 < 64 := by omega
  have symbols : lastSymbols start 0 none (encodeBytes [a, b]) =
      .ok ([a.toNat / 4, a.toNat % 4 * 16 + b.toNat / 16, b.toNat % 16 * 4], 1) := by
    rw [encodeBytes_two]
    exact lastSymbols_symbol (first_lt a) (lastSymbols_symbol (second_lt a b)
      (lastSymbols_symbol last (lastSymbols_pads start 3 1 none (by decide))))
  have low : b.toNat / 16 < 16 := by have := b.toNat_lt; omega
  have second := second_byte b (a.toNat % 4) 0 (by decide)
  have even : b.toNat % 16 * 4 % 4 = 0 := by omega
  simp only [Nat.add_zero] at second
  simp only [lastGroup, symbols, ok_bind, List.length_cons, List.length_nil, Nat.reduceAdd,
    Nat.reduceLT, if_false, ne_eq, not_true_eq_false, pure_eq_ok_value, first_byte a _ low,
    second, even]

theorem lastGroup_one (start : Nat) : lastGroup start (encodeBytes [a]) = .ok [a] := by
  have last : a.toNat % 4 * 16 < 64 := by omega
  have symbols : lastSymbols start 0 none (encodeBytes [a]) =
      .ok ([a.toNat / 4, a.toNat % 4 * 16], 2) := by
    rw [encodeBytes_one]
    exact lastSymbols_symbol (first_lt a)
      (lastSymbols_symbol last (lastSymbols_pads start 2 2 none (by decide)))
  have first := first_byte a 0 (by decide)
  have even : a.toNat % 4 * 16 % 16 = 0 := by omega
  simp only [Nat.add_zero] at first
  simp only [lastGroup, symbols, ok_bind, List.length_cons, List.length_nil, Nat.reduceAdd,
    Nat.reduceLT, if_false, ne_eq, not_true_eq_false, pure_eq_ok_value, first, even]

end

theorem encodeBytes_ne_nil {bytes : Bytes} (h : bytes ≠ []) :
    ∃ e more, encodeBytes bytes = e :: more := by
  match bytes with
  | [a] => exact ⟨_, _, encodeBytes_one a⟩
  | [a, b] => exact ⟨_, _, encodeBytes_two a b⟩
  | a :: b :: c :: rest => exact ⟨_, _, encodeBytes_group a b c rest⟩

theorem decodeFrom_encodeBytes (bytes : Bytes) (start : Nat) :
    decodeFrom start (encodeBytes bytes) = .ok bytes := by
  match bytes with
  | [] => rfl
  | [a] => rw [encodeBytes_one, decodeFrom, ← encodeBytes_one, lastGroup_one] <;> simp
  | [a, b] => rw [encodeBytes_two, decodeFrom, ← encodeBytes_two, lastGroup_two] <;> simp
  | [a, b, c] =>
    have last := lastGroup_three a b c start
    rw [encodeBytes_group] at last ⊢
    simpa [decodeFrom, encodeBytes, encode, Utf8.encode] using last
  | a :: b :: c :: d :: rest =>
    obtain ⟨e, more, later⟩ := encodeBytes_ne_nil (List.cons_ne_nil d rest)
    have ih := decodeFrom_encodeBytes (d :: rest) (start + 4)
    have low : b.toNat / 16 < 16 := by have := b.toNat_lt; omega
    have low' : c.toNat / 64 < 4 := by have := c.toNat_lt; omega
    rw [encodeBytes_group, later, decodeFrom, ← later, ih]
    simp only [valueAt_symbolByte (first_lt a), valueAt_symbolByte (second_lt a b),
      valueAt_symbolByte (third_lt b c), valueAt_symbolByte (fourth_lt c), ok_bind,
      pure_eq_ok_value, first_byte a _ low, second_byte b _ _ low', third_byte]

theorem length_encodeBytes (bytes : Bytes) : (encodeBytes bytes).length % 4 = 0 := by
  match bytes with
  | [] => rfl
  | [a] => simp [encodeBytes_one]
  | [a, b] => simp [encodeBytes_two]
  | a :: b :: c :: rest =>
    have ih := length_encodeBytes rest
    simp only [encodeBytes_group, List.length_cons]
    omega

/-- **Base64.** Bytes are read back from their text. -/
theorem decode_encode (bytes : Bytes) :
    decode (Utf8.ofString (String.ofList (encode bytes))) = .ok bytes := by
  have text : Utf8.ofString (String.ofList (encode bytes)) = encodeBytes bytes := by
    simp [Utf8.ofString, encodeBytes]
  rw [text]
  simp [decode, length_encodeBytes, decodeFrom_encodeBytes]

/-! ## The alphabet -/

/-- A symbol of the standard alphabet. -/
def IsSymbol (c : Char) : Prop :=
  'A' ≤ c ∧ c ≤ 'Z' ∨ 'a' ≤ c ∧ c ≤ 'z' ∨ '0' ≤ c ∧ c ≤ '9' ∨ c = '+' ∨ c = '/'

instance : DecidablePred IsSymbol := fun _ => inferInstanceAs (Decidable (_ ∨ _))

/-- Symbols of the alphabet, filled up to groups of four by at most two padding signs. -/
def IsPadded (text : List Char) : Prop :=
  text.length % 4 = 0 ∧ ∃ symbols pads, text = symbols ++ List.replicate pads '=' ∧ pads ≤ 2 ∧
    ∀ c ∈ symbols, IsSymbol c

theorem isSymbol_symbol {n : Nat} (h : n < 64) : IsSymbol (symbol n) := by
  have all : ∀ n < 64, IsSymbol (symbol n) := by decide
  exact all n h

/-- A last group. -/
theorem isPadded_last (symbols : List Char) (pads : Nat) (four : symbols.length + pads = 4)
    (few : pads ≤ 2) (known : ∀ c ∈ symbols, IsSymbol c) :
    IsPadded (symbols ++ List.replicate pads '=') := by
  refine ⟨?_, symbols, pads, rfl, few, known⟩
  rw [List.length_append, List.length_replicate, four]

theorem IsPadded.cons_group {text : List Char} (h : IsPadded text) (group : List Char)
    (four : group.length = 4) (known : ∀ c ∈ group, IsSymbol c) : IsPadded (group ++ text) := by
  obtain ⟨length, symbols, pads, rfl, few, rest⟩ := h
  refine ⟨?_, group ++ symbols, pads, by rw [List.append_assoc], few, ?_⟩
  · rw [List.length_append, four]
    omega
  · exact List.forall_mem_append.2 ⟨known, rest⟩

theorem encode_isPadded (bytes : Bytes) : IsPadded (encode bytes) := by
  match bytes with
  | [] => exact ⟨rfl, [], 0, rfl, by decide, by simp⟩
  | [a] =>
    have last : a.toNat % 4 * 16 < 64 := by omega
    refine isPadded_last [_, _] 2 rfl (Nat.le_refl 2) ?_
    simpa using ⟨isSymbol_symbol (first_lt a), isSymbol_symbol last⟩
  | [a, b] =>
    have last : b.toNat % 16 * 4 < 64 := by omega
    refine isPadded_last [_, _, _] 1 rfl (by decide) ?_
    simpa using ⟨isSymbol_symbol (first_lt a), isSymbol_symbol (second_lt a b),
      isSymbol_symbol last⟩
  | a :: b :: c :: rest =>
    refine (encode_isPadded rest).cons_group [_, _, _, _] rfl ?_
    simpa using ⟨isSymbol_symbol (first_lt a), isSymbol_symbol (second_lt a b),
      isSymbol_symbol (third_lt b c), isSymbol_symbol (fourth_lt c)⟩

end ControllerHooks.Base64
