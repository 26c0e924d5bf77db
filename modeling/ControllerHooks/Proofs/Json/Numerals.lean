import ControllerHooks.Json.Printer
import ControllerHooks.Json.Token
import ControllerHooks.Proofs.Binary64.Decimals
import ControllerHooks.Proofs.Digits
import ControllerHooks.Proofs.Json.Fits
import ControllerHooks.Proofs.Outcome
import ControllerHooks.Proofs.Utf8

/-!
# Numbers that are written and read again

A number is written as a numeral, which is read as it was written. What it stands for then is a
finite number again. It need not be the same one: each step of `Binary64.scaled` rounds.

* `Token.Written`: the parts of a numeral, in the order of writing.
  `Token.scanNumeral_written` reads them back.
* `Number.writes`: every finite number is written as a numeral whose value is in range.
* `Number.reread`: the number that is read where a number was written (`Token.scanNumber_text`).
  It is finite, and an integer is read as itself (`Number.reread_of_isWord`).
* `Token.value?_isFinite`: whatever is read as a number is finite.
-/

namespace ControllerHooks

open Utf8 (Piece pieces)

namespace Token

theorem length_pieces (cs : List Char) : (pieces cs).length = cs.length := List.length_map _

theorem pieces_append (cs ds : List Char) : pieces (cs ++ ds) = pieces cs ++ pieces ds :=
  List.map_append

theorem pieces_nil : pieces [] = [] := rfl

theorem pieces_cons (c : Char) (cs : List Char) : pieces (c :: cs) = .char c :: pieces cs := rfl

theorem drop_pieces (cs : List Char) (rest : List Piece) :
    (pieces cs ++ rest).drop cs.length = rest := by
  simp [← length_pieces]

/-! ## Digits -/

/-- Nothing that a number could go on with. -/
def Ends (rest : List Piece) : Prop :=
  ∀ p ∈ rest.head?, p = .char ',' ∨ p = .char ']' ∨ p = .char '}'

theorem ends_cons {p : Piece} (h : p = .char ',' ∨ p = .char ']' ∨ p = .char '}')
    (rest : List Piece) : Ends (p :: rest) := by
  simpa [Ends] using h

/-- No digit comes first. -/
def Stops (rest : List Piece) : Prop := ∀ p ∈ rest.head?, digit? p = none

theorem stops_cons {p : Piece} (h : digit? p = none) (rest : List Piece) : Stops (p :: rest) := by
  simpa [Stops] using h

theorem Ends.stops {rest : List Piece} (ends : Ends rest) : Stops rest := by
  intro p first
  rcases ends p first with rfl | rfl | rfl <;> decide

/-- What a digit stands for. -/
def places (ds : List Char) : List Nat := ds.map fun c => c.toNat - '0'.toNat

theorem places_length (ds : List Char) : (places ds).length = ds.length := List.length_map _

theorem digit?_of_isDigit {c : Char} (h : c.isDigit = true) :
    digit? (.char c) = some (c.toNat - '0'.toNat) := by
  have bounds : '0' ≤ c ∧ c ≤ '9' := by
    simpa [Char.isDigit, Char.le_def] using h
  simp [digit?, bounds]

theorem digits_pieces {ds : List Char} (h : ∀ c ∈ ds, c.isDigit = true) {rest : List Piece}
    (stops : Stops rest) : digits (pieces ds ++ rest) = places ds := by
  induction ds with
  | nil =>
    cases rest with
    | nil => rfl
    | cons p rest =>
      have none := stops p rfl
      simp [pieces_nil, digits, none, places]
  | cons c ds ih =>
    obtain ⟨head, tail⟩ := List.forall_mem_cons.1 h
    rw [pieces_cons, List.cons_append, digits, digit?_of_isDigit head]
    simp [ih tail, places]

theorem accumulate_places {ds : List Char} {n : Nat}
    (fits : Nat.ofDigitChars 10 ds n < 0x10000000000000000) :
    accumulate n (places ds) = (Nat.ofDigitChars 10 ds n, 0) := by
  induction ds generalizing n with
  | nil => rfl
  | cons c ds ih =>
    rw [Nat.ofDigitChars_cons, Nat.mul_comm] at fits ⊢
    have step : n * 10 + (c.toNat - '0'.toNat) < 0x10000000000000000 :=
      Nat.lt_of_le_of_lt (Digits.le_ofDigitChars ds _) fits
    simp only [places, List.map_cons, accumulate, step, if_true]
    exact ih fits

theorem foldl_places (ds : List Char) (n : Nat) :
    (places ds).foldl (fun n d => n * 10 + d) n = Nat.ofDigitChars 10 ds n := by
  induction ds generalizing n with
  | nil => rfl
  | cons c ds ih =>
    rw [Nat.ofDigitChars_cons, Nat.mul_comm]
    exact ih _

/-! ## Numerals -/

/-- The parts of a numeral as they are written. -/
structure Written where
  negative : Bool
  whole : List Char
  fraction : Option (List Char)
  exponent : Option Int

namespace Written

def signText (negative : Bool) : List Char := if negative then ['-'] else []

def exponentText (e : Int) : List Char :=
  'e' :: (if 0 ≤ e then '+' else '-') :: Nat.toDigits 10 e.natAbs

def text (x : Written) : List Char :=
  signText x.negative ++ x.whole ++ (x.fraction.elim [] fun ds => '.' :: ds) ++
    x.exponent.elim [] exponentText

def numeral (x : Written) : Numeral :=
  ⟨x.negative, places x.whole, x.fraction.map places, x.exponent⟩

/-- Digits are where they must be, and no zero leads unless it is the whole part. -/
structure WellFormed (x : Written) : Prop where
  whole : x.whole ≠ [] ∧ ∀ c ∈ x.whole, c.isDigit = true
  noZero : ¬ (x.whole.head? = some '0' ∧ 1 < x.whole.length)
  fraction : ∀ ds ∈ x.fraction, ds ≠ [] ∧ ∀ c ∈ ds, c.isDigit = true

end Written

theorem scanExponent_written (e : Int) {rest : List Piece} (ends : Ends rest) :
    scanExponent (.char (if 0 ≤ e then '+' else '-') ::
        (pieces (Nat.toDigits 10 e.natAbs) ++ rest)) =
      .ok (e, (Nat.toDigits 10 e.natAbs).length + 1) := by
  have read := digits_pieces (Digits.isDigit_toDigits e.natAbs) ends.stops
  have nonempty : (places (Nat.toDigits 10 e.natAbs)).isEmpty = false := by
    simp [places, Nat.toDigits_ne_nil]
  have value := foldl_places (Nat.toDigits 10 e.natAbs) 0
  rw [Nat.ofDigitChars_toDigits (by decide) (by decide)] at value
  by_cases up : 0 ≤ e
  · simp [scanExponent, up, read, nonempty, value, places_length, Nat.add_comm 1]
  · have negated : -(e.natAbs : Int) = e := by omega
    simp [scanExponent, up, read, nonempty, value, places_length, negated, Nat.add_comm 1,
      -Nat.cast_natAbs]

theorem digit_eq_zero {c : Char} (digit : c.isDigit = true) (h : c.toNat - '0'.toNat = 0) :
    c = '0' := by
  have least := (Char.isDigit_iff_toNat.1 digit).1
  exact Char.toNat_inj.1 (by omega)

/-! What a numeral goes on with after its whole part. -/

/-- A fraction, if there is one, and the size of the numeral up to there. -/
def scanFraction (size : Nat) : List Piece → Except Flaw (Option (List Nat) × Nat)
  | .char '.' :: rest =>
    if (digits rest).isEmpty then throw (noDigit rest)
    else pure (some (digits rest), size + 1 + (digits rest).length)
  | _ => pure (none, size)

theorem scanFraction_of_ne {size : Nat} {text : List Piece}
    (other : ∀ rest, text = .char '.' :: rest → False) :
    scanFraction size text = .ok (none, size) := by
  unfold scanFraction
  split
  · exact absurd rfl (other _)
  · rfl

/-- An exponent, if there is one. -/
def scanMark (x : Numeral) (size : Nat) : List Piece → Except Flaw (Numeral × Nat)
  | .char 'e' :: rest | .char 'E' :: rest => do
    let (e, n) ← scanExponent rest
    pure (⟨x.negative, x.whole, x.fraction, some e⟩, size + 1 + n)
  | _ => pure (⟨x.negative, x.whole, x.fraction, none⟩, size)

/-- After a whole part the numeral is as the text goes on. -/
theorem scanNumeral_of_whole {text : List Piece} {negative : Bool} {whole : List Nat} {sign : Nat}
    (front : (text.head? = some (.char '-')) = (negative = true))
    (length : (if negative = true then 1 else 0) = sign)
    (read : digits (text.drop sign) = whole) (nonempty : whole.isEmpty = false)
    (noZero : ¬ (whole.head? = some 0 ∧ 1 < whole.length)) {fraction : Option (List Nat)}
    {size : Nat}
    (point : scanFraction (sign + whole.length) (text.drop (sign + whole.length)) =
      .ok (fraction, size)) :
    scanNumeral text = scanMark ⟨negative, whole, fraction, none⟩ size (text.drop size) := by
  simp only [scanNumeral, front, length, read, nonempty, noZero, Bool.false_eq_true, if_false,
    Bool.decide_eq_true]
  generalize text.drop (sign + whole.length) = tail at point ⊢
  split
  · rename_i rest
    cases empty : (digits rest).isEmpty with
    | true => simp [scanFraction, empty] at point
    | false =>
      simp only [scanFraction, empty, Bool.false_eq_true, if_false] at point ⊢
      obtain ⟨rfl, rfl⟩ := Prod.mk.inj (Except.ok.inj point)
      rfl
  · rename_i other
    rw [scanFraction_of_ne other] at point
    obtain ⟨rfl, rfl⟩ := Prod.mk.inj (Except.ok.inj point)
    rfl

theorem scanFraction_written (size : Nat) {fraction : Option (List Char)}
    (point : ∀ ds ∈ fraction, ds ≠ [] ∧ ∀ c ∈ ds, c.isDigit = true) {rest : List Piece}
    (stops : Stops rest) (other : rest.head? ≠ some (.char '.')) :
    scanFraction size (pieces (fraction.elim [] fun ds => '.' :: ds) ++ rest) =
      .ok (fraction.map places, size + (fraction.elim [] fun ds => '.' :: ds).length) := by
  cases fraction with
  | none =>
    refine scanFraction_of_ne fun more here => other ?_
    rw [Option.elim_none, pieces_nil, List.nil_append] at here
    rw [here]
    rfl
  | some ds =>
    obtain ⟨some, isDigit⟩ := point ds rfl
    have read := digits_pieces isDigit stops
    have nonempty : (places ds).isEmpty = false := by simp [places, some]
    simp [scanFraction, pieces_cons, read, nonempty, places_length, Nat.add_assoc, Nat.add_comm 1]

theorem scanMark_written (x : Numeral) (size : Nat) (exponent : Option Int) {rest : List Piece}
    (ends : Ends rest) :
    scanMark x size (pieces (exponent.elim [] Written.exponentText) ++ rest) =
      .ok (⟨x.negative, x.whole, x.fraction, exponent⟩,
        size + (exponent.elim [] Written.exponentText).length) := by
  cases exponent with
  | none =>
    cases rest with
    | nil => rfl
    | cons p rest => rcases ends p rfl with rfl | rfl | rfl <;> rfl
  | some e =>
    have scanned := scanExponent_written e ends
    simp [scanMark, pieces_cons, Written.exponentText, scanned, Nat.add_assoc, Nat.add_comm 1]

/-- A sign is read as it is written, before the digits of a whole part. -/
theorem head?_signText (negative : Bool) {whole : List Char} (some : whole ≠ [])
    (isDigit : ∀ c ∈ whole, c.isDigit = true) (rest : List Piece) :
    ((pieces (Written.signText negative) ++ (pieces whole ++ rest)).head? =
      Option.some (.char '-')) = (negative = true) := by
  cases negative with
  | true => simp [Written.signText, pieces]
  | false =>
    obtain ⟨c, more, rfl⟩ := List.exists_cons_of_ne_nil some
    have digit := isDigit c List.mem_cons_self
    have other : c ≠ '-' := by rintro rfl; simp at digit
    simp [Written.signText, pieces, other]

/-- Where an exponent may follow, neither a digit nor a point comes first. -/
theorem stops_marked (exponent : Option Int) {rest : List Piece} (ends : Ends rest) :
    Stops (pieces (exponent.elim [] Written.exponentText) ++ rest) ∧
      (pieces (exponent.elim [] Written.exponentText) ++ rest).head? ≠ some (.char '.') := by
  cases exponent with
  | none =>
    refine ⟨ends.stops, fun first => ?_⟩
    exact absurd (ends _ first) (by decide)
  | some e => exact ⟨stops_cons (by decide) _, by simp [pieces_cons, Written.exponentText]⟩

theorem stops_pointed (fraction : Option (List Char)) {rest : List Piece} (stops : Stops rest) :
    Stops (pieces (fraction.elim [] fun ds => '.' :: ds) ++ rest) := by
  cases fraction with
  | none => exact stops
  | some ds => exact stops_cons (by decide) _

/-- A written numeral is read part by part, each one up to where the next one begins. -/
theorem scanNumeral_written {x : Written} (h : x.WellFormed) {rest : List Piece}
    (ends : Ends rest) : scanNumeral (pieces x.text ++ rest) = .ok (x.numeral, x.text.length) := by
  obtain ⟨negative, whole, fraction, exponent⟩ := x
  obtain ⟨⟨some, isDigit⟩, noZero, point⟩ := h
  dsimp only at some isDigit noZero point
  let sign : List Char := Written.signText negative
  let pointed : List Char := fraction.elim [] fun ds => '.' :: ds
  let marked : List Char := exponent.elim [] Written.exponentText
  obtain ⟨stops, other⟩ := stops_marked exponent ends
  have text : pieces (Written.text ⟨negative, whole, fraction, exponent⟩) ++ rest =
      pieces sign ++ (pieces whole ++ (pieces pointed ++ (pieces marked ++ rest))) := by
    simp [Written.text, sign, pointed, marked, pieces_append]
  have size : (Written.text ⟨negative, whole, fraction, exponent⟩).length =
      sign.length + whole.length + pointed.length + marked.length := by
    simp only [Written.text, List.length_append, sign, pointed, marked]
  have length : (if negative = true then 1 else 0) = sign.length := by cases negative <;> rfl
  have read : digits ((pieces sign ++ (pieces whole ++ (pieces pointed ++
      (pieces marked ++ rest)))).drop sign.length) = places whole := by
    rw [drop_pieces, digits_pieces isDigit (stops_pointed fraction stops)]
  have nonempty : (places whole).isEmpty = false := by simp [places, some]
  have leads : ¬ ((places whole).head? = Option.some 0 ∧ 1 < (places whole).length) := by
    rintro ⟨zero, long⟩
    obtain ⟨c, more, rfl⟩ := List.exists_cons_of_ne_nil some
    have first := digit_eq_zero (isDigit c List.mem_cons_self) (by simpa [places] using zero)
    exact noZero ⟨by simp [first], by simpa [places_length] using long⟩
  have after : (pieces sign ++ (pieces whole ++ (pieces pointed ++ (pieces marked ++ rest)))).drop
      (sign.length + (places whole).length) = pieces pointed ++ (pieces marked ++ rest) := by
    rw [← List.drop_drop, drop_pieces, places_length, drop_pieces]
  have behind : (pieces sign ++ (pieces whole ++ (pieces pointed ++ (pieces marked ++ rest)))).drop
      (sign.length + (places whole).length + pointed.length) = pieces marked ++ rest := by
    rw [← List.drop_drop, after, drop_pieces]
  have front : ((pieces sign ++ (pieces whole ++ (pieces pointed ++
      (pieces marked ++ rest)))).head? = Option.some (.char '-')) = (negative = true) :=
    head?_signText negative some isDigit _
  rw [text, size]
  generalize pieces sign ++ (pieces whole ++ _) = written at front read after behind
  have parts : scanNumeral written = scanMark ⟨negative, places whole, fraction.map places, none⟩
      (sign.length + (places whole).length + pointed.length)
      (written.drop (sign.length + (places whole).length + pointed.length)) := by
    refine scanNumeral_of_whole front length read nonempty leads ?_
    rw [after]
    exact scanFraction_written _ point stops other
  rw [parts, behind, scanMark_written _ _ exponent ends, places_length]
  rfl

/-! ## Values -/

namespace Written

/-- The numeral has a point or an exponent, and stands for `significand * 10 ^ e`. -/
structure Denotes (x : Written) (significand : Nat) (e : Int) : Prop where
  wellFormed : x.WellFormed
  real : x.fraction ≠ none ∨ x.exponent ≠ none
  digits : Nat.ofDigitChars 10 (x.whole ++ x.fraction.getD []) 0 = significand
  exponent : x.exponent.getD 0 - (x.fraction.getD []).length = e

/-- When all digits fit, none of them is left out. -/
theorem Denotes.value? {x : Written} {significand : Nat} {e : Int} (h : x.Denotes significand e)
    (few : significand < 0x10000000000000000) :
    x.numeral.value? = (Binary64.scaled x.negative significand e).map .real := by
  have digits := h.digits
  rw [Nat.ofDigitChars_append] at digits
  have whole : accumulate 0 (places x.whole) = (Nat.ofDigitChars 10 x.whole 0, 0) := by
    apply accumulate_places
    exact (Digits.le_ofDigitChars (x.fraction.getD []) _).trans_lt (digits ▸ few)
  have fraction : accumulate (Nat.ofDigitChars 10 x.whole 0) ((x.fraction.map places).getD []) =
      (significand, 0) := by
    have same : (x.fraction.map places).getD [] = places (x.fraction.getD []) := by
      cases x.fraction <;> rfl
    rw [same, accumulate_places (digits ▸ few), digits]
  have length : ((x.fraction.map places).getD []).length = (x.fraction.getD []).length := by
    cases x.fraction <;> simp [places_length]
  have real : ¬ (x.fraction.map places = none ∧ x.exponent = none) := by
    rintro ⟨none, noExponent⟩
    exact h.real.elim (fun some => some (by simpa using none)) fun some => some noExponent
  unfold Numeral.value?
  simp only [numeral, whole, fraction, length]
  rw [if_neg fun all => real ⟨all.2.1, all.2.2.1⟩, ← h.exponent]
  congr 2
  omega

end Written

end Token

/-! ## Decimals -/

namespace Decimal

open Token (Written)

variable {d : Nat} {negative : Bool}

/-- Digits with a point inside them. -/
theorem denotes_pointed {k : Nat} {e : Option Int} (some : 0 < k)
    (inside : k < (Nat.toDigits 10 d).length) :
    (⟨negative, (Nat.toDigits 10 d).take k, Option.some ((Nat.toDigits 10 d).drop k), e⟩ :
      Written).Denotes d (e.getD 0 - ((Nat.toDigits 10 d).length - k : Nat)) := by
  have isDigit := Digits.isDigit_toDigits d
  have positive : 0 < d := by
    rw [Nat.pos_iff_ne_zero]
    rintro rfl
    simp at inside
    omega
  refine ⟨⟨⟨?_, fun c hc => isDigit c (List.mem_of_mem_take hc)⟩, ?_, ?_⟩, .inl (by simp), ?_, ?_⟩
  · simp [List.take_eq_nil_iff, Nat.toDigits_ne_nil, some.ne']
  · rintro ⟨leads, _⟩
    rw [List.head?_take, if_neg some.ne'] at leads
    exact Digits.head?_toDigits positive leads
  · rintro ds ⟨⟩
    exact ⟨by simpa using inside, fun c hc => isDigit c (List.mem_of_mem_drop hc)⟩
  · simp
  · simp

/-- One digit with an exponent. -/
theorem denotes_digit (one : (Nat.toDigits 10 d).length = 1) (e : Int) :
    (⟨negative, Nat.toDigits 10 d, none, some e⟩ : Written).Denotes d e := by
  refine ⟨⟨⟨Nat.toDigits_ne_nil, Digits.isDigit_toDigits d⟩, ?_, by simp⟩, .inr (by simp), ?_, ?_⟩
  · rintro ⟨_, long⟩
    exact absurd one long.ne'
  · simp
  · simp

/-- Digits with zeros before the point. -/
theorem denotes_whole {k : Nat} (settled : d = 0 → k = 0) :
    (⟨negative, Nat.toDigits 10 d ++ List.replicate k '0', some ['0'], none⟩ : Written).Denotes
      (d * 10 ^ (k + 1)) (-1) := by
  have zeros : ∀ c ∈ List.replicate k '0', c.isDigit = true := by
    intro c hc
    rw [List.eq_of_mem_replicate hc]
    rfl
  refine ⟨⟨⟨?_, ?_⟩, ?_, ?_⟩, .inl (by simp), ?_, ?_⟩
  · simp [Nat.toDigits_ne_nil]
  · intro c hc
    exact (List.mem_append.1 hc).elim (Digits.isDigit_toDigits d c) (zeros c)
  · rintro ⟨leads, long⟩
    rcases Nat.eq_zero_or_pos d with rfl | positive
    · rw [settled rfl] at long
      simp at long
    · rw [List.head?_append, Option.or_of_isSome (by simp [Nat.toDigits_ne_nil])] at leads
      exact Digits.head?_toDigits positive leads
  · rintro ds ⟨⟩
    simp
  · rw [Nat.ofDigitChars_append, Nat.ofDigitChars_append, Nat.ofDigitChars_ten_toDigits,
      Nat.ofDigitChars_replicate_zero]
    simp [Nat.ofDigitChars_cons]
    ring
  · simp

/-- Digits after a zero, a point and more zeros. -/
theorem denotes_small (k : Nat) :
    (⟨negative, ['0'], some (List.replicate k '0' ++ Nat.toDigits 10 d), none⟩ : Written).Denotes d
      (-(k + (Nat.toDigits 10 d).length : Nat)) := by
  have zeros : ∀ c ∈ List.replicate k '0', c.isDigit = true := by
    intro c hc
    rw [List.eq_of_mem_replicate hc]
    rfl
  refine ⟨⟨⟨by simp, by simp⟩, by simp, ?_⟩, .inl (by simp), ?_, ?_⟩
  · rintro ds ⟨⟩
    refine ⟨by simp [Nat.toDigits_ne_nil], fun c hc => ?_⟩
    exact (List.mem_append.1 hc).elim (zeros c) (Digits.isDigit_toDigits d c)
  · simp [Nat.ofDigitChars_cons, Nat.ofDigitChars_append, Nat.ofDigitChars_replicate_zero]
  · simp

/-- A decimal is written as a numeral with its digits and its exponent, or, when it is a whole
number, with its digits up to the first place after the point. -/
theorem text_written {x : Decimal} (settled : x.IsSettled) (negative : Bool) :
    ∃ w : Written, w.negative = negative ∧
      w.text = Written.signText negative ++ x.text ∧
      (w.Denotes x.digits x.exponent ∨
        ∃ s ≤ 10 ^ 17, w.Denotes s (-1)) := by
  obtain ⟨d, e⟩ := x
  have some : 0 < (Nat.toDigits 10 d).length := Nat.length_toDigits_pos
  unfold text
  dsimp only
  generalize hleading : e + ((Nat.toDigits 10 d).length : Int) - 1 = leading
  split
  · rename_i whole
    obtain ⟨k, rfl⟩ := Int.eq_ofNat_of_zero_le whole.1
    have zero : d = 0 → k = 0 := fun zero => by simpa using settled zero
    refine ⟨⟨negative, Nat.toDigits 10 d ++ List.replicate k '0', Option.some ['0'], none⟩, rfl, ?_,
      .inr ⟨_, ?_, denotes_whole zero⟩⟩
    · simp [Written.text]
    · have below := lt_pow_countDigits d
      have digits : countDigits d + (k + 1) ≤ 17 := by
        unfold countDigits
        omega
      calc d * 10 ^ (k + 1) ≤ 10 ^ countDigits d * 10 ^ (k + 1) := Nat.mul_le_mul_right _ below.le
        _ = 10 ^ (countDigits d + (k + 1)) := (Nat.pow_add _ _ _).symm
        _ ≤ 10 ^ 17 := Nat.pow_le_pow_right (by decide) digits
  · rename_i notWhole
    split
    · rename_i inside
      have place : (leading + 1).toNat < (Nat.toDigits 10 d).length := by omega
      have written := @denotes_pointed d negative _ none (by omega) place
      have exponent : (none : Option Int).getD 0 -
          ((Nat.toDigits 10 d).length - (leading + 1).toNat : Nat) = e := by
        dsimp only [Option.getD_none]
        omega
      rw [exponent] at written
      exact ⟨_, rfl, by simp [Written.text, pointed], .inl written⟩
    · split
      · rename_i small
        have zeros : -(((-leading - 1).toNat + (Nat.toDigits 10 d).length : Nat) : Int) = e := by
          omega
        have written := @denotes_small d negative (-leading - 1).toNat
        rw [zeros] at written
        exact ⟨_, rfl, by simp [Written.text], .inl written⟩
      · by_cases one : (Nat.toDigits 10 d).length = 1
        · have written := @denotes_digit d negative one leading
          rw [show leading = e by omega] at written ⊢
          exact ⟨_, rfl, by simp [Written.text, Written.exponentText, one], .inl written⟩
        · have written := @denotes_pointed d negative 1 (Option.some leading) (by decide) (by omega)
          have exponent : (Option.some leading).getD 0 -
              ((Nat.toDigits 10 d).length - 1 : Nat) = e := by
            dsimp only [Option.getD_some]
            omega
          rw [exponent] at written
          exact ⟨_, rfl, by simp [Written.text, Written.exponentText, one, pointed], .inl written⟩

end Decimal

/-! ## Numbers -/

namespace Token

theorem value?_of_isWord {n : Int} (word : (Number.int n).IsWord) :
    Numeral.value? ⟨decide (n < 0), places (Nat.toDigits 10 n.natAbs), none, none⟩ =
      some (.int n) := by
  obtain ⟨low, high⟩ := word
  have whole : accumulate 0 (places (Nat.toDigits 10 n.natAbs)) = (n.natAbs, 0) := by
    have value := Nat.ofDigitChars_toDigits (n := n.natAbs) (b := 10) (by decide) (by decide)
    rw [accumulate_places (by rw [value]; omega), value]
  have kept : decide (n < 0) = true → n.natAbs ≠ 0 ∧ n.natAbs ≤ 0x8000000000000000 := by
    intro negative
    have below : n < 0 := of_decide_eq_true negative
    omega
  have value : (if decide (n < 0) = true then -(n.natAbs : Int) else n.natAbs) = n := by
    by_cases negative : n < 0
    · rw [if_pos (decide_eq_true negative)]
      omega
    · rw [if_neg (by simpa using negative)]
      omega
  unfold Numeral.value?
  simp only [whole]
  rw [if_pos ⟨trivial, trivial, trivial, kept⟩, value]

/-- No zero leads, unless it is the whole number. -/
theorem no_leading_zero (n : Nat) :
    ¬ ((Nat.toDigits 10 n).head? = some '0' ∧ 1 < (Nat.toDigits 10 n).length) := by
  rintro ⟨leads, long⟩
  rcases Nat.eq_zero_or_pos n with rfl | positive
  · simp at long
  · exact Digits.head?_toDigits positive leads

theorem scanNumber_written {x : Written} (h : x.WellFormed) {n : Number}
    (value : x.numeral.value? = some n) {rest : List Piece} (ends : Ends rest) :
    scanNumber (pieces x.text ++ rest) = (.number n, some (x.text.length - 1)) := by
  simp [scanNumber, scanNumeral_written h ends, value]

end Token

namespace Number

open Token (Written Ends)

/-- What is read where the number was written. -/
def reread (n : Number) : Number :=
  match Token.scanNumber (pieces n.text) with
  | (.number m, _) => m
  | _ => n

/-- The numeral is how the first number is written, and stands for the second. -/
structure Writes (x : Written) (n m : Number) : Prop where
  wellFormed : x.WellFormed
  text : x.text = n.text
  value : x.numeral.value? = some m

theorem writes_int {n : Int} (word : (Number.int n).IsWord) :
    Writes ⟨decide (n < 0), Nat.toDigits 10 n.natAbs, none, none⟩ (.int n) (.int n) := by
  refine ⟨⟨⟨Nat.toDigits_ne_nil, Digits.isDigit_toDigits _⟩, Token.no_leading_zero _, by simp⟩, ?_,
    Token.value?_of_isWord word⟩
  by_cases negative : n < 0 <;> simp [Written.text, Written.signText, Number.text, negative]

theorem writes_zero (negative : Bool) :
    Writes ⟨negative, ['0'], some ['0'], none⟩ (.real ⟨negative, 0⟩) (.real ⟨negative, 0⟩) := by
  have denotes := @Decimal.denotes_whole 0 negative 0 fun _ => rfl
  have scaled : Binary64.scaled negative 0 (-1) = some ⟨negative, 0⟩ := by
    have unscaled : Binary64.scale 0 (-1) = some 0 := by rw [Binary64.scale, if_pos rfl]
    simp [Binary64.scaled, Binary64.nearest, unscaled]
  refine ⟨denotes.wellFormed, by cases negative <;> rfl, ?_⟩
  have value := denotes.value? (by decide)
  simpa [scaled] using value

/-- Every finite number is written as a numeral in range. -/
theorem writes {n : Number} (finite : n.IsFinite) : ∃ x m, Writes x n m := by
  cases n with
  | int n => exact ⟨_, _, writes_int finite⟩
  | real x =>
    obtain ⟨negative, magnitude⟩ := x
    obtain ⟨w, rfl, text, denotes⟩ :=
      Decimal.text_written (Decimal.shortest_isSettled magnitude) negative
    have same : w.text = (Number.real ⟨w.negative, magnitude⟩).text := by
      rw [text, Number.text, Binary64.text]
      cases w.negative <;> rfl
    rcases denotes with denotes | ⟨significand, few, denotes⟩
    · obtain ⟨few, y, scaled⟩ := Decimal.shortest_scaled finite w.negative
      have value := denotes.value? (few.trans_lt (by decide))
      exact ⟨w, .real y, denotes.wellFormed, same, by rw [value, scaled]; rfl⟩
    · have small : significand < 2 ^ 64 := few.trans_lt (by decide)
      have down : (-1 : Int) < 0 := by decide
      obtain ⟨y, scaled⟩ := Binary64.scaled_negative w.negative small down
      have value := denotes.value? small
      exact ⟨w, .real y, denotes.wellFormed, same, by rw [value, scaled]; rfl⟩

theorem Writes.reread {x : Written} {n m : Number} (h : Writes x n m) : n.reread = m := by
  have nothing : Ends [] := by simp [Ends]
  have scanned := Token.scanNumber_written h.wellFormed h.value nothing
  rw [List.append_nil, h.text] at scanned
  rw [Number.reread, scanned]

/-- An integer is read as itself, and so are the zeros. -/
theorem reread_of_isWord {n : Number} (word : n.IsWord) : n.reread = n := by
  cases n with
  | int n => exact (writes_int word).reread
  | real x =>
    obtain ⟨negative, magnitude⟩ := x
    obtain rfl : magnitude = 0 := word
    exact (writes_zero negative).reread

end Number

namespace Token

/-- A written number is read where it stands. -/
theorem scanNumber_text {n : Number} (finite : n.IsFinite) {rest : List Piece} (ends : Ends rest) :
    scanNumber (pieces n.text ++ rest) = (.number n.reread, some (n.text.length - 1)) := by
  obtain ⟨x, m, written⟩ := Number.writes finite
  rw [written.reread, ← written.text]
  exact scanNumber_written written.wellFormed written.value ends

theorem begins_number {n : Number} (finite : n.IsFinite) :
    ∃ c more, n.text = c :: more ∧ (c = '-' ∨ c.isDigit = true) := by
  obtain ⟨x, m, written⟩ := Number.writes finite
  obtain ⟨some, isDigit⟩ := written.wellFormed.whole
  obtain ⟨c, more, whole⟩ := List.exists_cons_of_ne_nil some
  rw [← written.text, Written.text, Written.signText, whole]
  cases x.negative
  · exact ⟨c, _, rfl, .inr (isDigit c (by simp [whole]))⟩
  · exact ⟨'-', _, rfl, .inl rfl⟩

/-! ## Numbers that are read -/

theorem accumulate_lt (ds : List Nat) {n : Nat} (h : n < 0x10000000000000000) :
    (accumulate n ds).1 < 0x10000000000000000 := by
  induction ds generalizing n with
  | nil => exact h
  | cons d rest ih =>
    rw [accumulate]
    split
    · exact ih ‹_›
    · exact h

/-- Whatever a numeral stands for is finite. -/
theorem value?_isFinite {x : Numeral} {n : Number} (h : x.value? = some n) : n.IsFinite := by
  unfold Numeral.value? at h
  have small := accumulate_lt x.whole (n := 0) (by decide)
  generalize accumulate 0 x.whole = whole at h small
  dsimp only at h
  split at h
  · rename_i word
    cases h
    simp only [Number.IsFinite]
    split
    · have := word.2.2.2 ‹_›
      omega
    · omega
  · obtain ⟨y, scaled, rfl⟩ := Option.map_eq_some_iff.1 h
    exact Binary64.scaled_lt scaled

end Token

theorem Number.IsFinite.reread {n : Number} (h : n.IsFinite) : n.reread.IsFinite := by
  obtain ⟨x, m, written⟩ := Number.writes h
  rw [written.reread]
  exact Token.value?_isFinite written.value

end ControllerHooks
