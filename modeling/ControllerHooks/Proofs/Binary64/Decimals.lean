import ControllerHooks.Binary64.Shortest
import ControllerHooks.Proofs.Binary64.Rounding

/-!
# Shortest decimals are in range

The shortest decimal of a finite number has at most 17 digits and, taken as a number again, does not
leave the range of the format, although each step of `Binary64.scaled` rounds.

* `Decimal.InReach`: at most 17 digits, and not above the last midpoint but one. The shortest
  decimals are in reach (`Decimal.shortest_inReach`), but for that of the largest number.
* `Decimal.scaled_of_inReach` and `Decimal.shortest_scaled`: the products stay in range.
-/

namespace ControllerHooks.Decimal

open Binary64 (quotient value infinity)

/-! ## Digits -/

theorem quotient_shiftTen (num den : Nat) (e : Int) :
    quotient (shiftTen num den e) = num / den * 10 ^ e :=
  Binary64.quotient_times (by decide) num den e

theorem shiftTen_den_pos (num : Nat) {den : Nat} (h : 0 < den) (e : Int) :
    0 < (shiftTen num den e).2 := by
  unfold shiftTen
  split
  · exact h
  · exact Nat.mul_pos h (Nat.pow_pos (by decide))

theorem lt_pow_countDigits (n : Nat) : n < 10 ^ countDigits n :=
  (Nat.length_toDigits_le_iff (by decide) Nat.length_toDigits_pos).1 (le_refl _)

theorem pow_countDigits_le {n : Nat} (h : 0 < n) : 10 ^ (countDigits n - 1) ≤ n := by
  rcases Nat.eq_zero_or_pos (countDigits n - 1) with one | more
  · rw [one]
    exact h
  · by_contra! less
    have := (Nat.length_toDigits_le_iff (by decide) more).2 less
    unfold countDigits at this more
    omega

/-- A quotient is below the power of ten after its first digit. -/
theorem lt_leadingExponent (num : Nat) {den : Nat} (hd : 0 < den) :
    (num / den : ℚ) < 10 ^ (leadingExponent num den + 1) := by
  have ten : (10 : ℚ) ≠ 0 := by norm_num
  have positive : (0 : ℚ) < den := by exact_mod_cast hd
  have numHigh : (num : ℚ) < 10 ^ (countDigits num : Int) := by
    exact_mod_cast lt_pow_countDigits num
  have denLow : (10 : ℚ) ^ ((countDigits den : Int) - 1) ≤ den := by
    have least := pow_countDigits_le hd
    have some : 0 < countDigits den := Nat.length_toDigits_pos
    rw [show (countDigits den : Int) - 1 = (countDigits den - 1 : Nat) by omega]
    exact_mod_cast least
  simp only [leadingExponent]
  generalize hlow : (countDigits num : Int) - countDigits den - 1 = low
  split
  · rw [div_lt_iff₀ positive]
    calc (num : ℚ) < 10 ^ (countDigits num : Int) := numHigh
      _ = 10 ^ (low + 1 + 1) * 10 ^ ((countDigits den : Int) - 1) := by
          rw [← zpow_add₀ ten]; congr 1; omega
      _ ≤ 10 ^ (low + 1 + 1) * den := by gcongr
  · rename_i less
    have small := Nat.lt_of_not_le less
    have shifted := quotient_shiftTen num den (-(low + 1))
    have one : quotient (shiftTen num den (-(low + 1))) < 1 := by
      have part : (0 : ℚ) < (shiftTen num den (-(low + 1))).2 := by
        exact_mod_cast shiftTen_den_pos num hd _
      rw [quotient, div_lt_one part]
      exact_mod_cast small
    rwa [shifted, zpow_neg, ← div_eq_mul_inv, div_lt_one (zpow_pos (by norm_num) _)] at one

/-! ## What reads back -/

/-- The number that a decimal stands for. -/
def toRat (x : Decimal) : ℚ := x.digits * 10 ^ x.exponent

/-- What reads back as a magnitude is not above the midpoint to the next one. -/
theorem le_of_readsBack {m d : Nat} {e : Int} (h : readsBack m d e = true) :
    toRat ⟨d, e⟩ ≤ (Binary64.mantissa m + 1 / 2) * 2 ^ Binary64.exponent m := by
  have left := quotient_shiftTen d 1 e
  have right := Binary64.quotient_shift 1 4 (Binary64.exponent m)
  have leftPart := shiftTen_den_pos d Nat.one_pos e
  have rightPart := Binary64.shift_den_pos 1 (show 0 < 4 by decide) (Binary64.exponent m)
  simp only [readsBack, neighbours] at h
  generalize shiftTen d 1 e = point at h left leftPart
  generalize Binary64.shift 1 4 (Binary64.exponent m) = unit at h right rightPart
  have below : point.1 * unit.2 ≤ (4 * Binary64.mantissa m + 2) * unit.1 * point.2 := by
    split at h <;> simp only [Bool.and_eq_true] at h
    · exact of_decide_eq_true h.2
    · exact (of_decide_eq_true h.2).le
  calc toRat ⟨d, e⟩ = quotient point := by rw [left, toRat]; norm_num
    _ ≤ (4 * Binary64.mantissa m + 2) * quotient unit := by
        rw [quotient, quotient, ← mul_div_assoc,
          div_le_div_iff₀ (by exact_mod_cast leftPart) (by exact_mod_cast rightPart)]
        exact_mod_cast below
    _ = _ := by rw [right]; ring

/-- Nothing but zero reads back as zero. -/
theorem pos_of_readsBack {m d : Nat} (nonzero : m ≠ 0) {e : Int} (h : readsBack m d e = true) :
    0 < d := by
  rw [Nat.pos_iff_ne_zero]
  rintro rfl
  have mantissa : 0 < Binary64.mantissa m := by
    unfold Binary64.mantissa
    simp only [Nat.pow_eq]
    split <;> omega
  have den := shiftTen_den_pos 0 Nat.one_pos e
  have digits : (shiftTen 0 1 e).1 = 0 := by
    unfold shiftTen
    split <;> simp
  have unit : 0 < (Binary64.shift 1 4 (Binary64.exponent m)).1 := by
    unfold Binary64.shift
    split <;> simp
  simp only [readsBack, neighbours, digits, Nat.zero_mul] at h
  generalize shiftTen 0 1 e = point at h den
  generalize Binary64.shift 1 4 (Binary64.exponent m) = place at h unit
  generalize hlow : 4 * Binary64.mantissa m - _ = low at h
  have least : 0 < low * place.1 * point.2 := by
    refine Nat.mul_pos (Nat.mul_pos ?_ unit) den
    split at hlow <;> omega
  split at h <;> simp only [Bool.and_eq_true] at h
  · exact absurd (of_decide_eq_true h.1) (Nat.not_le.2 least)
  · exact absurd (of_decide_eq_true h.1) (Nat.not_lt_zero _)

/-- A grid point beside a magnitude reads back, and is at most one above it. -/
theorem of_onGrid {m d : Nat} {e : Int} (h : onGrid m e = some d) :
    readsBack m d e = true ∧ ∀ bound : Nat, value m < bound * 10 ^ e → d ≤ bound := by
  have shifted := quotient_shiftTen (Binary64.ratio m).1 (Binary64.ratio m).2 (-e)
  have part := shiftTen_den_pos (Binary64.ratio m).1 (Binary64.ratio_den_pos m) (-e)
  simp only [onGrid] at h
  generalize shiftTen (Binary64.ratio m).1 (Binary64.ratio m).2 (-e) = point at h shifted part
  have floor {bound : Nat} (above : value m < bound * 10 ^ e) : point.1 / point.2 < bound := by
    rw [Binary64.div_lt_iff_quotient part, shifted, zpow_neg, ← div_eq_mul_inv,
      div_lt_iff₀ (zpow_pos (by norm_num) _)]
    exact (Binary64.quotient_ratio m).trans_lt above
  have lower (good : readsBack m (point.1 / point.2) e = true) : readsBack m (point.1 / point.2) e =
      true ∧ ∀ bound : Nat, value m < bound * 10 ^ e → point.1 / point.2 ≤ bound :=
    ⟨good, fun _ above => (floor above).le⟩
  have upper (good : readsBack m (point.1 / point.2 + 1) e = true) :
      readsBack m (point.1 / point.2 + 1) e =
      true ∧ ∀ bound : Nat, value m < bound * 10 ^ e → point.1 / point.2 + 1 ≤ bound :=
    ⟨good, fun _ above => floor above⟩
  split at h
  · rename_i both
    obtain ⟨low, high⟩ := Bool.and_eq_true_iff.1 both
    obtain rfl := Option.some.inj h
    split
    · exact lower low
    · exact upper high
  · split at h
    · obtain rfl := Option.some.inj h
      exact lower ‹_›
    · split at h
      · obtain rfl := Option.some.inj h
        exact upper ‹_›
      · cases h

/-- The midpoint between the two largest numbers on the grid of multiples of `2 ^ (k + 1)`. -/
def midpoint (k : Nat) : Nat := 18014398509481981 * Nat.pow 2 k

/-- The midpoint between the two largest numbers of the format. -/
def reach : Nat := midpoint 970

/-- At most 17 digits, and no number beyond the reach. -/
structure InReach (x : Decimal) : Prop where
  digits : x.digits ≤ 10 ^ 17
  number : x.toRat ≤ reach

theorem inReach_zero : InReach ⟨0, 0⟩ := by
  have zero : toRat ⟨0, 0⟩ = 0 := by simp [toRat]
  refine ⟨by decide, ?_⟩
  rw [zero]
  exact Nat.cast_nonneg reach

/-- Zero has no exponent. -/
def IsSettled (x : Decimal) : Prop := x.digits = 0 → x.exponent = 0

theorem cast_midpoint (k : Nat) : (midpoint k : ℚ) = (18014398509481981 : Nat) * 2 ^ (k : Int) := by
  simp only [midpoint, Nat.cast_mul, Nat.pow_eq, Nat.cast_pow, zpow_natCast, Nat.cast_ofNat]

theorem midpoint_le {m : Nat} (h : m + 1 < infinity) :
    (Binary64.mantissa m + 1 / 2 : ℚ) * 2 ^ Binary64.exponent m ≤ reach := by
  have few := Binary64.mantissa_lt m
  have split : Binary64.exponent m ≤ 970 ∨
      Binary64.exponent m = 971 ∧ Binary64.mantissa m + 2 ≤ 2 ^ 53 := by
    unfold Binary64.exponent Binary64.mantissa
    simp only [infinity, Nat.pow_eq] at h ⊢
    split <;> omega
  rw [reach, cast_midpoint]
  rcases split with finer | ⟨coarsest, less⟩
  · have mantissa : (Binary64.mantissa m + 1 / 2 : ℚ) ≤ (18014398509481981 : Nat) := by
      have : (Binary64.mantissa m : ℚ) < 9007199254740992 := by exact_mod_cast few
      push_cast
      linarith
    gcongr
    · norm_num
    · exact_mod_cast finer
  · have mantissa : (Binary64.mantissa m + 1 / 2 : ℚ) * 2 ≤ (18014398509481981 : Nat) := by
      have : (Binary64.mantissa m + 2 : ℚ) ≤ 9007199254740992 := by exact_mod_cast less
      push_cast
      linarith
    rw [coarsest, show (971 : Int) = 1 + (970 : Nat) by norm_num, zpow_add₀ (by norm_num), zpow_one,
      ← mul_assoc]
    gcongr

theorem toRat_trimZeros (fuel : Nat) (x : Decimal) :
    (trimZeros fuel x).toRat = x.toRat ∧ (trimZeros fuel x).digits ≤ x.digits ∧
      (0 < x.digits → 0 < (trimZeros fuel x).digits) := by
  induction fuel generalizing x with
  | zero => exact ⟨rfl, le_refl _, id⟩
  | succ fuel ih =>
    rw [trimZeros]
    split
    · rename_i zero
      obtain ⟨same, fewer, some⟩ := ih ⟨x.digits / 10, x.exponent + 1⟩
      refine ⟨same.trans ?_, fewer.trans (Nat.div_le_self _ _), ?_⟩
      · have digits : (x.digits : ℚ) = (x.digits / 10 : Nat) * 10 := by
          have := Nat.div_add_mod x.digits 10
          exact_mod_cast (by omega : x.digits = x.digits / 10 * 10)
        rw [toRat, toRat, digits, zpow_add₀ (by norm_num), zpow_one]
        ring
      · intro _
        apply some
        dsimp only
        omega
    · exact ⟨rfl, le_refl _, id⟩

/-- What the search finds: nothing, or a grid point that reads back. -/
theorem search_cases (m : Nat) (leading : Int) (places : Nat) :
    search m leading places = ⟨0, 0⟩ ∨ ∃ d e, onGrid m e = some d ∧
      leading + 1 ≤ 17 + e ∧ search m leading places = trimZeros 20 ⟨d, e⟩ := by
  induction places with
  | zero => exact .inl rfl
  | succ places ih =>
    simp only [search]
    split
    · rename_i d found
      exact .inr ⟨d, _, found, by omega, rfl⟩
    · exact ih

theorem shortest_isSettled (m : Nat) : (shortest m).IsSettled := by
  unfold shortest
  split
  · exact fun _ => rfl
  · rename_i nonzero
    dsimp only
    generalize leadingExponent (Binary64.ratio m).1 (Binary64.ratio m).2 = leading
    rcases search_cases m leading 17 with none | ⟨d, e, found, _, same⟩
    · rw [none]
      exact fun _ => rfl
    · rw [same]
      intro zero
      have positive := pos_of_readsBack nonzero (of_onGrid found).1
      have := (toRat_trimZeros 20 ⟨d, e⟩).2.2 positive
      omega

/-- The shortest decimal is in reach, unless the number is the largest one. -/
theorem shortest_inReach {m : Nat} (h : m + 1 < infinity) : (shortest m).InReach := by
  unfold shortest
  split
  · exact inReach_zero
  · have first := lt_leadingExponent (Binary64.ratio m).1 (Binary64.ratio_den_pos m)
    rw [← quotient, Binary64.quotient_ratio] at first
    dsimp only
    generalize leadingExponent (Binary64.ratio m).1 (Binary64.ratio m).2 = leading at first ⊢
    rcases search_cases m leading 17 with none | ⟨d, e, found, near, same⟩
    · rw [none]
      exact inReach_zero
    · obtain ⟨good, bounded⟩ := of_onGrid found
      obtain ⟨kept, fewer, _⟩ := toRat_trimZeros 20 ⟨d, e⟩
      have digits : d ≤ 10 ^ 17 := by
        apply bounded
        refine first.trans_le ?_
        rw [Nat.cast_pow, Nat.cast_ofNat, ← zpow_natCast, ← zpow_add₀ (by norm_num)]
        exact zpow_le_zpow_right₀ (by norm_num) (by omega)
      rw [same]
      refine ⟨fewer.trans digits, ?_⟩
      rw [kept]
      exact (le_of_readsBack good).trans (midpoint_le h)

/-! ## Reading again -/

theorem scaled_up (negative : Bool) {d e r : Nat} (few : e ≤ 308)
    (h : ((Binary64.nearest d 1).bind fun m => Binary64.multiply m (Binary64.powerOfTen e)) =
      some r) : ∃ x, Binary64.scaled negative d e = some x := by
  obtain ⟨m, rounded, product⟩ := Option.bind_eq_some_iff.1 h
  have scaled : ∃ r, Binary64.scale m e = some r := by
    rw [Binary64.scale]
    split
    · exact ⟨0, rfl⟩
    · rw [if_pos (Int.natCast_nonneg e), if_pos (by omega), Int.toNat_natCast]
      exact ⟨r, product⟩
  obtain ⟨r, scaled⟩ := scaled
  exact ⟨⟨negative, r⟩, by simp [Binary64.scaled, rounded, scaled]⟩

/-- The largest digits in reach with this exponent. -/
def largest (e : Nat) : Nat := min (Nat.pow 10 17) (reach / Nat.pow 10 e)

theorem product_of_largest : ∀ i < 18, ((Binary64.nearest (largest (291 + i)) 1).bind fun m =>
    Binary64.multiply m (Binary64.powerOfTen (291 + i))).isSome = true := by
  decide +kernel

/-- Digits in reach have a product in range. Small exponents leave room for all of them. -/
theorem product_of_le {d e : Nat} (few : d ≤ Nat.pow 10 17) (h : d * Nat.pow 10 e ≤ reach)
    (small : e ≤ 308) : ∃ r, ((Binary64.nearest d 1).bind fun m =>
      Binary64.multiply m (Binary64.powerOfTen e)) = some r := by
  obtain ⟨i, bound, above, digits⟩ : ∃ i < 18, e ≤ 291 + i ∧ d ≤ largest (291 + i) := by
    rcases Nat.le_total e 291 with low | high
    · exact ⟨0, by decide, low, few.trans (by decide +kernel)⟩
    · refine ⟨e - 291, by omega, by omega, le_min few ?_⟩
      rw [show 291 + (e - 291) = e by omega]
      exact (Nat.le_div_iff_mul_le (Nat.pow_pos (by decide))).2 h
  obtain ⟨M, product⟩ := Option.isSome_iff_exists.1 (product_of_largest i bound)
  obtain ⟨m, rounded, product⟩ := Option.bind_eq_some_iff.1 product
  have fewer : (d / (1 : Nat) : ℚ) ≤ largest (291 + i) / (1 : Nat) := by gcongr
  obtain ⟨n, smaller, rounds⟩ := Binary64.nearest_mono (by decide) (by decide) fewer rounded
  have power := Binary64.powerOfTen_le above (show 291 + i ≤ 308 by omega)
  obtain ⟨r, _, times⟩ := Binary64.multiply_le smaller power product
  exact ⟨r, by rw [rounds]; exact times⟩

theorem le_of_pow_le {e : Nat} (h : Nat.pow 10 e ≤ reach) : e ≤ 308 := by
  obtain ⟨next, limit⟩ : ∃ next, next = 309 := ⟨_, rfl⟩
  have beyond : reach < Nat.pow 10 next := by
    subst limit
    decide +kernel
  have : e < next := (Nat.pow_lt_pow_iff_right (by decide)).1 (h.trans_lt beyond)
  omega

/-- A decimal in reach is a number in range. -/
theorem scaled_of_inReach {x : Decimal} (h : x.InReach) (negative : Bool) :
    ∃ y, Binary64.scaled negative x.digits x.exponent = some y := by
  rcases lt_or_ge x.exponent 0 with down | up
  · refine Binary64.scaled_negative negative (lt_of_le_of_lt h.digits (by decide)) down
  · obtain ⟨e, exponent⟩ := Int.eq_ofNat_of_zero_le up
    have number : x.digits * Nat.pow 10 e ≤ reach := by
      have := h.number
      rw [toRat, exponent, zpow_natCast] at this
      exact_mod_cast this
    rw [exponent]
    rcases Nat.eq_zero_or_pos x.digits with zero | positive
    · exact ⟨⟨negative, 0⟩, by rw [zero]; simp [Binary64.scaled, Binary64.nearest, Binary64.scale]⟩
    · have small : e ≤ 308 := le_of_pow_le ((Nat.le_mul_of_pos_left _ positive).trans number)
      obtain ⟨r, product⟩ := product_of_le h.digits number small
      exact scaled_up negative small product

/-- **In range.** The shortest decimal of a finite number is a number in range again. -/
theorem shortest_scaled {m : Nat} (finite : m < infinity) (negative : Bool) :
    (shortest m).digits ≤ 10 ^ 17 ∧
      ∃ y, Binary64.scaled negative (shortest m).digits (shortest m).exponent = some y := by
  rcases Nat.lt_or_ge (m + 1) infinity with inner | largest
  · have reached := shortest_inReach inner
    exact ⟨reached.digits, scaled_of_inReach reached negative⟩
  · obtain rfl : m = infinity - 1 := by omega
    -- the product of rounded parts is below the number, not above it
    have last : shortest (infinity - 1) = ⟨17976931348623157, 292⟩ := by decide +kernel
    have product : ((Binary64.nearest 17976931348623157 1).bind fun m =>
        Binary64.multiply m (Binary64.powerOfTen 292)).isSome = true := by decide +kernel
    obtain ⟨r, product⟩ := Option.isSome_iff_exists.1 product
    rw [last]
    exact ⟨by decide, scaled_up negative (by decide) product⟩

end ControllerHooks.Decimal
