import ControllerHooks.Proofs.Base64
import Mathlib.Algebra.Group.Nat.Defs

/-!
# Base64 as bits

The format, said without its reader and its writer. The bits of some bytes, eight for each, are cut
into sixes, and zeros complete the last six. Each six is the place of a symbol in the alphabet, and
padding signs complete the last group of four symbols.

* `Base64.Spells`: a text spells some bytes.
* `Base64.spells_iff`: what is written for some bytes spells them, and no other text does.
* `Base64.Spells.unique`: a text spells no other bytes.
* `Base64.Spells.last_complete`: the bits that the last symbol has left over are zero.
-/

namespace ControllerHooks.Base64

/-- The lowest bits of a number, the highest of them first. -/
def bits : (width : Nat) → (n : Nat) → List Bool
  | 0, _ => []
  | width + 1, n => n.testBit width :: bits width n

theorem length_bits (width n : Nat) : (bits width n).length = width := by
  induction width with
  | zero => rfl
  | succ width ih => rw [bits, List.length_cons, ih]

theorem bits_add (high low n : Nat) :
    bits (high + low) n = bits high (n / 2 ^ low) ++ bits low n := by
  induction high with
  | zero => rw [Nat.zero_add, bits, List.nil_append]
  | succ high ih =>
    rw [Nat.succ_add, bits, bits, ih, Nat.testBit_div_two_pow, List.cons_append]

theorem bits_congr {width n m : Nat} (h : ∀ i < width, n.testBit i = m.testBit i) :
    bits width n = bits width m := by
  induction width with
  | zero => rfl
  | succ width ih =>
    have head := h width (Nat.lt_succ_self width)
    have tail := ih fun i hi => h i (Nat.lt_succ_of_lt hi)
    rw [bits, bits, head, tail]

theorem bits_mod (width n : Nat) : bits width (n % 2 ^ width) = bits width n := by
  apply bits_congr
  intro i hi
  rw [Nat.testBit_mod_two_pow, decide_eq_true hi, Bool.true_and]

/-- The bits of a number are those of its high part, then those of its low part. -/
theorem bits_split (high low n : Nat) :
    bits (high + low) n = bits high (n / 2 ^ low) ++ bits low (n % 2 ^ low) := by
  rw [bits_add, bits_mod]

/-- A number put together of two has the bits of both. -/
theorem bits_joined (high low x : Nat) {y : Nat} (h : y < 2 ^ low) :
    bits (high + low) (x * 2 ^ low + y) = bits high x ++ bits low y := by
  have top : (x * 2 ^ low + y) / 2 ^ low = x := by
    rw [Nat.mul_comm, Nat.mul_add_div (Nat.two_pow_pos low), Nat.div_eq_of_lt h, Nat.add_zero]
  have bottom : (x * 2 ^ low + y) % 2 ^ low = y := by
    rw [Nat.mul_comm, Nat.mul_add_mod, Nat.mod_eq_of_lt h]
  rw [bits_split, top, bottom]

theorem testBit_of_bits {width n m : Nat} (same : bits width n = bits width m) :
    ∀ i < width, n.testBit i = m.testBit i := by
  induction width with
  | zero => intro i hi; omega
  | succ width ih =>
    intro i hi
    obtain ⟨head, tail⟩ := List.cons.inj same
    by_cases last : i = width
    · rw [last, head]
    · exact ih tail i (by omega)

/-- A number is told by its bits. -/
theorem eq_of_bits {width n m : Nat} (hn : n < 2 ^ width) (hm : m < 2 ^ width)
    (same : bits width n = bits width m) : n = m := by
  apply Nat.eq_of_testBit_eq
  intro i
  by_cases inside : i < width
  · exact testBit_of_bits same i inside
  · have above : 2 ^ width ≤ 2 ^ i := Nat.pow_le_pow_right (by decide) (by omega)
    rw [Nat.testBit_lt_two_pow (Nat.lt_of_lt_of_le hn above),
      Nat.testBit_lt_two_pow (Nat.lt_of_lt_of_le hm above)]

theorem bits_zero (width : Nat) : bits width 0 = List.replicate width false := by
  induction width with
  | zero => rfl
  | succ width ih => rw [bits, ih, Nat.zero_testBit, List.replicate_succ]

/-- A number whose bits end in zeros is a multiple of that power of two. -/
theorem mod_of_bits {width zeros n : Nat} {before after : List Bool} (few : zeros ≤ width)
    (same : before ++ bits width n = after ++ List.replicate zeros false) : n % 2 ^ zeros = 0 := by
  have split : bits width n =
      bits (width - zeros) (n / 2 ^ zeros) ++ bits zeros (n % 2 ^ zeros) := by
    rw [← bits_split, Nat.sub_add_cancel few]
  rw [split, ← List.append_assoc, ← bits_zero] at same
  have low := List.append_inj_right' same (by rw [length_bits, length_bits])
  have positive := Nat.two_pow_pos zeros
  exact eq_of_bits (Nat.mod_lt n positive) positive low

/-! ## The format -/

def alphabet : String := "ABCDEFGHIJKLMNOPQRSTUVWXYZabcdefghijklmnopqrstuvwxyz0123456789+/"

theorem length_alphabet : alphabet.toList.length = 64 := by decide

/-- The symbol for six bits. -/
def letter (six : Fin 64) : Char := alphabet.toList.get (six.cast length_alphabet.symm)

/-- How a text spells some bytes: `sixes` are the values of its symbols, `zeros` counts the bits
that complete the last of them, and `pads` the signs that complete the last group. Neither is more
than what is needed. -/
structure Spelling (text : List Char) (bytes : Bytes) where
  sixes : List (Fin 64)
  zeros : Nat
  pads : Nat
  bits_eq : sixes.flatMap (fun six => bits 6 six.val) =
    bytes.flatMap (fun byte => bits 8 byte.toNat) ++ List.replicate zeros false
  zeros_lt : zeros < 6
  text_eq : text = sixes.map letter ++ List.replicate pads '='
  pads_lt : pads < 4
  complete : text.length % 4 = 0

/-- The text is the padded standard encoding of the bytes. -/
def Spells (text : List Char) (bytes : Bytes) : Prop := Nonempty (Spelling text bytes)

theorem letter_eq_symbol : ∀ six : Fin 64, letter six = symbol six := by decide

theorem letter_ne_pad : ∀ six : Fin 64, letter six ≠ '=' := by decide

theorem letter_injective {six other : Fin 64} (same : letter six = letter other) : six = other := by
  have byte : symbolByte six = symbolByte other := by
    rw [symbolByte, symbolByte, ← letter_eq_symbol, ← letter_eq_symbol, same]
  have value := value?_symbolByte six six.isLt
  rw [byte, value?_symbolByte other other.isLt] at value
  exact Fin.ext (Option.some.inj value).symm

theorem length_flatMap_bits {α : Type} (width : Nat) (value : α → Nat) (xs : List α) :
    (xs.flatMap fun x => bits width (value x)).length = width * xs.length := by
  induction xs with
  | nil => rfl
  | cons x rest ih =>
    rw [List.flatMap_cons, List.length_append, length_bits, ih, List.length_cons, Nat.mul_succ,
      Nat.add_comm]

/-- Equally many values are told by their bits together. -/
theorem eq_of_flatMap_bits {sixes others : List (Fin 64)} (length : sixes.length = others.length)
    (same : sixes.flatMap (fun six => bits 6 six.val) =
      others.flatMap (fun six => bits 6 six.val)) : sixes = others := by
  induction sixes generalizing others with
  | nil => exact (List.eq_nil_of_length_eq_zero length.symm).symm
  | cons six rest ih =>
    cases others with
    | nil => cases length
    | cons other more =>
      rw [List.flatMap_cons, List.flatMap_cons] at same
      obtain ⟨head, tail⟩ := List.append_inj same (by rw [length_bits, length_bits])
      have first : six = other := Fin.ext (eq_of_bits six.isLt other.isLt head)
      rw [first, ih (Nat.succ.inj length) tail]

namespace Spelling

variable {text : List Char} {bytes : Bytes}

theorem length_sixes (s : Spelling text bytes) :
    6 * s.sixes.length = 8 * bytes.length + s.zeros := by
  have length := congrArg List.length s.bits_eq
  rwa [List.length_append, length_flatMap_bits, length_flatMap_bits,
    List.length_replicate] at length

theorem length_text (s : Spelling text bytes) : (s.sixes.length + s.pads) % 4 = 0 := by
  have length := s.complete
  rwa [s.text_eq, List.length_append, List.length_map, List.length_replicate] at length

/-- A padding sign stands for two bits that were added. -/
theorem zeros_eq (s : Spelling text bytes) : s.zeros = 2 * s.pads := by
  have symbols := s.length_sixes
  have signs := s.length_text
  have few := s.zeros_lt
  have fewer := s.pads_lt
  omega

/-- Bytes have one text. -/
theorem text_unique {other : List Char} (s : Spelling text bytes) (t : Spelling other bytes) :
    text = other := by
  have symbols := s.length_sixes
  have symbols' := t.length_sixes
  have few := s.zeros_lt
  have few' := t.zeros_lt
  have zeros : s.zeros = t.zeros := by omega
  have pads : s.pads = t.pads := by
    have double := s.zeros_eq
    have double' := t.zeros_eq
    omega
  have length : s.sixes.length = t.sixes.length := by omega
  have sixes : s.sixes = t.sixes := by
    apply eq_of_flatMap_bits length
    rw [s.bits_eq, t.bits_eq, zeros]
  rw [s.text_eq, t.text_eq, sixes, pads]

end Spelling

/-! ## What is written

A byte is the low end of one six and the high end of the next, so the bits of both are taken apart
where the bytes meet the sixes. -/

section
variable (a b c : UInt8)

theorem bits_first : bits 8 a.toNat = bits 6 (a.toNat / 4) ++ bits 2 (a.toNat % 4) :=
  bits_split 6 2 a.toNat

theorem bits_second : bits 8 b.toNat = bits 4 (b.toNat / 16) ++ bits 4 (b.toNat % 16) :=
  bits_split 4 4 b.toNat

theorem bits_third : bits 8 c.toNat = bits 2 (c.toNat / 64) ++ bits 6 (c.toNat % 64) :=
  bits_split 2 6 c.toNat

theorem bits_firstSecond :
    bits 6 (a.toNat % 4 * 16 + b.toNat / 16) = bits 2 (a.toNat % 4) ++ bits 4 (b.toNat / 16) := by
  have low : b.toNat / 16 < 2 ^ 4 := by have := b.toNat_lt; omega
  exact bits_joined 2 4 (a.toNat % 4) low

theorem bits_secondThird :
    bits 6 (b.toNat % 16 * 4 + c.toNat / 64) = bits 4 (b.toNat % 16) ++ bits 2 (c.toNat / 64) := by
  have low : c.toNat / 64 < 2 ^ 2 := by have := c.toNat_lt; omega
  exact bits_joined 4 2 (b.toNat % 16) low

theorem Spells.group {text : List Char} {bytes : Bytes} (h : Spells text bytes) :
    Spells (symbol (a.toNat / 4) :: symbol (a.toNat % 4 * 16 + b.toNat / 16) ::
      symbol (b.toNat % 16 * 4 + c.toNat / 64) :: symbol (c.toNat % 64) :: text)
      (a :: b :: c :: bytes) := by
  obtain ⟨s⟩ := h
  refine ⟨⟨⟨_, first_lt a⟩ :: ⟨_, second_lt a b⟩ :: ⟨_, third_lt b c⟩ :: ⟨_, fourth_lt c⟩ ::
    s.sixes, s.zeros, s.pads, ?_, s.zeros_lt, ?_, s.pads_lt, ?_⟩⟩
  · simp only [List.flatMap_cons, bits_first a, bits_second b, bits_third c, bits_firstSecond,
      bits_secondThird, s.bits_eq, List.append_assoc]
  · simp only [List.map_cons, letter_eq_symbol, List.cons_append, ← s.text_eq]
  · have length := s.complete
    simp only [List.length_cons]
    omega

theorem spells_two :
    Spells [symbol (a.toNat / 4), symbol (a.toNat % 4 * 16 + b.toNat / 16),
      symbol (b.toNat % 16 * 4), '='] [a, b] := by
  have last : b.toNat % 16 * 4 < 64 := by omega
  have zeros : bits 6 (b.toNat % 16 * 4 + 0) = bits 4 (b.toNat % 16) ++ bits 2 0 :=
    bits_joined 4 2 (b.toNat % 16) (by decide)
  rw [Nat.add_zero, bits_zero] at zeros
  refine ⟨⟨[⟨_, first_lt a⟩, ⟨_, second_lt a b⟩, ⟨_, last⟩], 2, 1, ?_, by decide, ?_, by decide,
    Nat.mod_self 4⟩⟩
  · simp only [List.flatMap_cons, List.flatMap_nil, bits_first a, bits_second b, bits_firstSecond,
      zeros, List.append_assoc, List.append_nil]
  · simp only [List.map_cons, letter_eq_symbol]
    rfl

theorem spells_one :
    Spells [symbol (a.toNat / 4), symbol (a.toNat % 4 * 16), '=', '='] [a] := by
  have last : a.toNat % 4 * 16 < 64 := by omega
  have zeros : bits 6 (a.toNat % 4 * 16 + 0) = bits 2 (a.toNat % 4) ++ bits 4 0 :=
    bits_joined 2 4 (a.toNat % 4) (by decide)
  rw [Nat.add_zero, bits_zero] at zeros
  refine ⟨⟨[⟨_, first_lt a⟩, ⟨_, last⟩], 4, 2, ?_, by decide, ?_, by decide, Nat.mod_self 4⟩⟩
  · simp only [List.flatMap_cons, List.flatMap_nil, bits_first a, zeros, List.append_assoc,
      List.append_nil]
  · simp only [List.map_cons, letter_eq_symbol]
    rfl

end

theorem spells_encode (bytes : Bytes) : Spells (encode bytes) bytes := by
  match bytes with
  | [] => exact ⟨⟨[], 0, 0, rfl, by decide, rfl, by decide, rfl⟩⟩
  | [a] => exact spells_one a
  | [a, b] => exact spells_two a b
  | a :: b :: c :: rest => exact (spells_encode rest).group a b c

/-- **The format.** The writer writes the one text that spells the bytes. -/
theorem spells_iff {text : List Char} {bytes : Bytes} :
    Spells text bytes ↔ text = encode bytes := by
  constructor
  · rintro ⟨s⟩
    obtain ⟨t⟩ := spells_encode bytes
    exact s.text_unique t
  · rintro rfl
    exact spells_encode bytes

/-- A text spells no other bytes, since its bytes are read back from it. -/
theorem Spells.unique {text : List Char} {bytes others : Bytes} (h : Spells text bytes)
    (h' : Spells text others) : others = bytes := by
  have same : encode others = encode bytes := (spells_iff.1 h').symm.trans (spells_iff.1 h)
  have read := decode_encode others
  rw [same, decode_encode] at read
  exact (Except.ok.inj read).symm

theorem Spells.isPadded {text : List Char} {bytes : Bytes} (h : Spells text bytes) :
    IsPadded text := by
  rw [spells_iff.1 h]
  exact encode_isPadded bytes

/-- The padding signs of a text begin after its last symbol. -/
theorem symbols_eq {front symbols : List Char} {last : Char} {pads count : Nat}
    (symbol : last ≠ '=') (known : ∀ c ∈ symbols, c ≠ '=')
    (same : front ++ last :: List.replicate pads '=' = symbols ++ List.replicate count '=') :
    symbols = front ++ [last] ∧ count = pads := by
  induction pads generalizing count with
  | zero =>
    cases count with
    | zero => exact ⟨by simpa using same.symm, rfl⟩
    | succ count =>
      rw [List.replicate_succ', ← List.append_assoc] at same
      exact absurd (List.append_inj_right' same rfl) (by simpa using symbol)
  | succ pads ih =>
    rw [List.replicate_succ', ← List.cons_append, ← List.append_assoc] at same
    cases count with
    | zero =>
      have sign : '=' ∈ symbols := by
        rw [List.replicate_zero, List.append_nil] at same
        rw [← same]
        exact List.mem_append_right _ (List.mem_singleton_self _)
      exact absurd rfl (known _ sign)
    | succ count =>
      rw [List.replicate_succ', ← List.append_assoc] at same
      obtain ⟨split, rfl⟩ := ih (List.append_inj_left' same rfl)
      exact ⟨split, rfl⟩

/-- The bits that the last symbol has left over are zero. -/
theorem Spells.last_complete {front : List Char} {six : Fin 64} {pads : Nat} {bytes : Bytes}
    (h : Spells (front ++ letter six :: List.replicate pads '=') bytes) :
    six.val % 4 ^ pads = 0 := by
  obtain ⟨s⟩ := h
  have known : ∀ c ∈ s.sixes.map letter, c ≠ '=' := by
    intro c hc
    obtain ⟨six, _, rfl⟩ := List.mem_map.1 hc
    exact letter_ne_pad six
  obtain ⟨symbols, count⟩ := symbols_eq (letter_ne_pad six) known s.text_eq
  obtain ⟨before, final, sixes, _, single⟩ := List.map_eq_append_iff.1 symbols
  obtain ⟨last, rfl, same⟩ := List.map_eq_singleton_iff.1 single
  obtain rfl : last = six := letter_injective same
  have all := s.bits_eq
  rw [sixes, List.flatMap_append, List.flatMap_singleton] at all
  have even := mod_of_bits (Nat.le_of_lt s.zeros_lt) all
  rwa [s.zeros_eq, count, Nat.pow_mul] at even

end ControllerHooks.Base64
