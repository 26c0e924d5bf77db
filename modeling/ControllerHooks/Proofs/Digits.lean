/-!
# Decimal digits

* A number but zero is written without a leading zero (`Nat.head?_toDigits`).
* Reading digits never makes a number smaller (`Nat.le_ofDigitChars`).
* Digits without a needless zero in front are what their number is written with
  (`Digits.toDigits_ofDigitChars`).
-/

namespace ControllerHooks.Digits

theorem isDigit_toDigits (n : Nat) : ∀ c ∈ Nat.toDigits 10 n, c.isDigit = true := fun _ h =>
  Nat.isDigit_of_mem_toDigits (by decide) (by decide) h

theorem le_ofDigitChars (ds : List Char) (n : Nat) : n ≤ Nat.ofDigitChars 10 ds n := by
  rw [Nat.ofDigitChars_eq_ofDigitChars_zero]
  calc n = 1 * n := (Nat.one_mul n).symm
    _ ≤ 10 ^ ds.length * n := Nat.mul_le_mul_right n (Nat.pow_pos (by decide))
    _ ≤ _ := Nat.le_add_right _ _

/-- Only zero begins with a zero. -/
theorem head?_toDigits {n : Nat} (positive : 0 < n) : (Nat.toDigits 10 n).head? ≠ some '0' := by
  induction n using Nat.strongRecOn with
  | _ n ih =>
    by_cases small : n < 10
    · have : n = 1 ∨ n = 2 ∨ n = 3 ∨ n = 4 ∨ n = 5 ∨ n = 6 ∨ n = 7 ∨ n = 8 ∨ n = 9 := by omega
      rcases this with rfl | rfl | rfl | rfl | rfl | rfl | rfl | rfl | rfl <;> decide
    · rw [Nat.toDigits_of_base_le (by decide) (Nat.le_of_not_lt small),
        List.head?_append, Option.or_of_isSome (by simp [Nat.toDigits_ne_nil])]
      exact ih (n / 10) (Nat.div_lt_self positive (by decide)) (by omega)

/-! ## Written back -/

theorem toDigits_toNat {c : Char} (digit : c.isDigit = true) :
    c.toNat - '0'.toNat < 10 ∧ Nat.toDigits 10 (c.toNat - '0'.toNat) = [c] := by
  obtain ⟨low, high⟩ := Char.isDigit_iff_toNat.1 digit
  have zero : '0'.toNat = 48 := rfl
  have nine : '9'.toNat = 57 := rfl
  have small : c.toNat - '0'.toNat < 10 := by omega
  refine ⟨small, ?_⟩
  rw [Nat.toDigits_of_lt_base small]
  congr 1
  apply Char.toNat_inj.1
  rw [Nat.toNat_digitChar_of_lt_ten small]
  omega

/-- Digits that are read after a number but zero are written after it. -/
theorem toDigits_ofDigitChars_of_pos {ds : List Char} (digits : ∀ c ∈ ds, c.isDigit = true)
    {n : Nat} (positive : 0 < n) :
    Nat.toDigits 10 (Nat.ofDigitChars 10 ds n) = Nat.toDigits 10 n ++ ds := by
  induction ds generalizing n with
  | nil => simp
  | cons c rest ih =>
    obtain ⟨digit, later⟩ := List.forall_mem_cons.1 digits
    obtain ⟨small, written⟩ := toDigits_toNat digit
    rw [Nat.ofDigitChars_cons, ih later (by omega),
      ← Nat.toDigits_append_toDigits (by decide) positive small, written, List.append_assoc]
    rfl

/-- Digits without a needless zero in front are what their number is written with. -/
theorem toDigits_ofDigitChars {ds : List Char} (given : ds ≠ [])
    (digits : ∀ c ∈ ds, c.isDigit = true) (leading : ds.head? = some '0' → ds.length = 1) :
    Nat.toDigits 10 (Nat.ofDigitChars 10 ds 0) = ds := by
  cases ds with
  | nil => exact absurd rfl given
  | cons c rest =>
    obtain ⟨digit, later⟩ := List.forall_mem_cons.1 digits
    obtain ⟨small, written⟩ := toDigits_toNat digit
    rw [Nat.ofDigitChars_cons, Nat.mul_zero, Nat.zero_add]
    by_cases zero : c = '0'
    · subst zero
      have alone : rest = [] := by simpa using leading rfl
      subst alone
      rfl
    · have positive : 0 < c.toNat - '0'.toNat := by
        apply Nat.pos_of_ne_zero
        intro none
        rw [none] at written
        exact zero (by simpa using written.symm)
      rw [toDigits_ofDigitChars_of_pos later positive, written]
      rfl

end ControllerHooks.Digits
