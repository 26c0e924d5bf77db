import ControllerHooks.Binary64.Basic
import Mathlib.Algebra.Order.Field.Power
import Mathlib.Algebra.Order.Ring.Rat
import Mathlib.Tactic.FieldSimp
import Mathlib.Tactic.Linarith
import Mathlib.Tactic.Positivity
import Mathlib.Tactic.Ring

/-!
# Rounding to binary64

Rounding keeps the order of numbers, and a number of the format is its own rounding. So whatever is
computed from smaller numbers stays in range when the largest ones do.

* `Binary64.OnGrid`: the grid on which a number has 53 bits. `gridExponent` finds it, and larger
  numbers have coarser ones (`OnGrid.le`).
* `Binary64.Nearest`: what `nearest` computes (`nearest_cases`), as a relation that keeps the order
  (`Nearest.le`). A magnitude is the nearest one to its value (`nearest_value`).
* `multiply_le`, `divide_le`, `scale_negative`: products of smaller numbers, and quotients by
  numbers from 1 on, are in range.
-/

namespace ControllerHooks.Binary64

/-- A fraction as a number. -/
def quotient (p : Nat × Nat) : ℚ := p.1 / p.2

/-- A fraction times a power of a base, which goes to the one part or to the other. -/
theorem quotient_times {base : Nat} (h : 0 < base) (num den : Nat) (e : Int) :
    quotient (if 0 ≤ e then (num * Nat.pow base e.toNat, den)
      else (num, den * Nat.pow base (-e).toNat)) = num / den * (base : ℚ) ^ e := by
  have positive : (base : ℚ) ≠ 0 := by exact_mod_cast h.ne'
  split
  · rename_i up
    obtain ⟨k, rfl⟩ := Int.eq_ofNat_of_zero_le up
    simp only [quotient, Int.toNat_natCast, Nat.pow_eq, Nat.cast_mul, Nat.cast_pow, zpow_natCast]
    ring
  · rename_i down
    obtain ⟨k, rfl⟩ : ∃ k : Nat, e = -k := ⟨(-e).toNat, by omega⟩
    simp only [quotient, neg_neg, Int.toNat_natCast, Nat.pow_eq, Nat.cast_mul, Nat.cast_pow,
      zpow_neg, zpow_natCast]
    field_simp

theorem quotient_shift (num den : Nat) (by2 : Int) :
    quotient (shift num den by2) = num / den * 2 ^ by2 :=
  quotient_times (by decide) num den by2

theorem shift_den_pos (num : Nat) {den : Nat} (h : 0 < den) (by2 : Int) :
    0 < (shift num den by2).2 := by
  unfold shift
  split
  · exact h
  · exact Nat.mul_pos h (Nat.pow_pos (by decide))

/-! ## Grids -/

/-- On the grid of multiples of `2 ^ q` the number has 53 bits, or fewer on the finest one. -/
structure OnGrid (x : ℚ) (q : Int) : Prop where
  finest : -1074 ≤ q
  below : x < 2 ^ (q + 53)
  above : q = -1074 ∨ 2 ^ (q + 52) ≤ x

theorem OnGrid.le {x y : ℚ} {q r : Int} (hx : OnGrid x q) (hy : OnGrid y r) (h : x ≤ y) :
    q ≤ r := by
  rcases hx.above with rfl | above
  · exact hy.finest
  · have powers : (2 : ℚ) ^ (q + 52) < 2 ^ (r + 53) := lt_of_le_of_lt (above.trans h) hy.below
    have := (zpow_lt_zpow_iff_right₀ (by norm_num)).1 powers
    omega

theorem OnGrid.of_bits {x : ℚ} {q : Int} (above : 2 ^ (q + 52) ≤ x) (below : x < 2 ^ (q + 53)) :
    OnGrid x (max q (-1074)) := by
  refine ⟨le_max_right _ _, lt_of_lt_of_le below ?_, ?_⟩
  · exact zpow_le_zpow_right₀ (by norm_num) (by omega)
  · rcases le_total q (-1074) with fine | coarse
    · exact .inl (max_eq_right fine)
    · rw [max_eq_left coarse]
      exact .inr above

/-- The numbers of bits of both parts tell a quotient up to a factor of two. -/
theorem quotient_bits {num den : Nat} (hn : 0 < num) (hd : 0 < den) :
    (2 : ℚ) ^ ((Nat.log2 num : Int) - Nat.log2 den - 1) ≤ num / den ∧
      (num / den : ℚ) < 2 ^ ((Nat.log2 num : Int) - Nat.log2 den + 1) := by
  have positive : (0 : ℚ) < den := by exact_mod_cast hd
  have two : (2 : ℚ) ≠ 0 := by norm_num
  have numLow : (2 : ℚ) ^ (Nat.log2 num : Int) ≤ num := by
    exact_mod_cast Nat.log2_self_le hn.ne'
  have numHigh : (num : ℚ) < 2 ^ ((Nat.log2 num : Int) + 1) := by
    exact_mod_cast Nat.lt_log2_self
  have denLow : (2 : ℚ) ^ (Nat.log2 den : Int) ≤ den := by
    exact_mod_cast Nat.log2_self_le hd.ne'
  have denHigh : (den : ℚ) < 2 ^ ((Nat.log2 den : Int) + 1) := by
    exact_mod_cast Nat.lt_log2_self
  constructor
  · rw [le_div_iff₀ positive]
    calc (2 : ℚ) ^ ((Nat.log2 num : Int) - Nat.log2 den - 1) * den
        ≤ 2 ^ ((Nat.log2 num : Int) - Nat.log2 den - 1) * 2 ^ ((Nat.log2 den : Int) + 1) := by
          gcongr
      _ = 2 ^ (Nat.log2 num : Int) := by rw [← zpow_add₀ two]; congr 1; omega
      _ ≤ num := numLow
  · rw [div_lt_iff₀ positive]
    calc (num : ℚ) < 2 ^ ((Nat.log2 num : Int) + 1) := numHigh
      _ = 2 ^ ((Nat.log2 num : Int) - Nat.log2 den + 1) * 2 ^ (Nat.log2 den : Int) := by
          rw [← zpow_add₀ two]; congr 1; omega
      _ ≤ 2 ^ ((Nat.log2 num : Int) - Nat.log2 den + 1) * den := by gcongr

theorem div_lt_iff_quotient {p : Nat × Nat} (h : 0 < p.2) {bound : Nat} :
    p.1 / p.2 < bound ↔ quotient p < bound := by
  have positive : (0 : ℚ) < p.2 := by exact_mod_cast h
  rw [Nat.div_lt_iff_lt_mul h, quotient, div_lt_iff₀ positive]
  exact_mod_cast Iff.rfl

theorem gridExponent_onGrid {num den : Nat} (hn : 0 < num) (hd : 0 < den) :
    OnGrid (num / den) (gridExponent num den) := by
  obtain ⟨above, below⟩ := quotient_bits hn hd
  have two : (2 : ℚ) ≠ 0 := by norm_num
  simp only [gridExponent]
  generalize hlow : ((Nat.log2 num : Int) - Nat.log2 den - 53) = low
  have first : (Nat.log2 num : Int) - Nat.log2 den - 1 = low + 52 := by omega
  have last : (Nat.log2 num : Int) - Nat.log2 den + 1 = low + 1 + 53 := by omega
  rw [first] at above
  rw [last] at below
  have fits : (shift num den (-low)).1 / (shift num den (-low)).2 < Nat.pow 2 53 ↔
      (num / den : ℚ) < 2 ^ (low + 53) := by
    have power : (2 : ℚ) ^ (low + 53) = ((Nat.pow 2 53 : Nat) : ℚ) * 2 ^ low := by
      rw [add_comm, zpow_add₀ two]
      norm_num
    rw [div_lt_iff_quotient (shift_den_pos num hd _), quotient_shift, power, zpow_neg,
      ← div_eq_mul_inv, div_lt_iff₀ (zpow_pos (by norm_num) _)]
  split
  · rename_i small
    exact .of_bits above (fits.1 small)
  · rename_i large
    refine .of_bits ?_ below
    rw [fits, not_lt] at large
    rwa [show low + 1 + 52 = low + 53 by omega]

/-! ## Whole numbers -/

/-- The natural number nearest to `x`, a half rounded to the even one. -/
structure RoundsTo (x : ℚ) (k : Nat) : Prop where
  low : k - 1 / 2 ≤ x
  high : x ≤ k + 1 / 2
  even : x = k - 1 / 2 ∨ x = k + 1 / 2 → k % 2 = 0

theorem roundDiv_roundsTo (num : Nat) {den : Nat} (h : 0 < den) :
    RoundsTo (num / den) (roundDiv num den) := by
  have positive : (0 : ℚ) < den := by exact_mod_cast h
  have whole : (num / den : ℚ) = (num / den : Nat) + (num % den : Nat) / den := by
    have parts : (num : ℚ) = den * (num / den : Nat) + (num % den : Nat) := by
      exact_mod_cast (Nat.div_add_mod num den).symm
    rw [parts]
    field_simp
  have under : (num % den : Nat) < den := Nat.mod_lt num h
  unfold roundDiv
  generalize num / den = q at whole ⊢
  generalize num % den = r at whole under ⊢
  have least : (0 : ℚ) ≤ r / den := by positivity
  have most : (r / den : ℚ) < 1 := by
    rw [div_lt_one positive]
    exact_mod_cast under
  rcases lt_trichotomy (2 * r) den with less | half | more
  · have part : (r / den : ℚ) < 1 / 2 := by
      rw [div_lt_iff₀ positive]
      have : (2 * r : ℚ) < den := by exact_mod_cast less
      linarith
    rw [if_pos less]
    refine ⟨by linarith, by linarith, ?_⟩
    rintro (tie | tie) <;> linarith
  · have part : (r / den : ℚ) = 1 / 2 := by
      rw [div_eq_iff positive.ne']
      have : (2 * r : ℚ) = den := by exact_mod_cast half
      linarith
    rw [if_neg half.not_lt, if_neg half.symm.not_lt]
    rcases Nat.mod_two_eq_zero_or_one q with even | odd
    · rw [even]
      exact ⟨by push_cast; linarith, by push_cast; linarith, fun _ => even⟩
    · rw [odd]
      exact ⟨by push_cast; linarith, by push_cast; linarith, fun _ => by omega⟩
  · have part : (1 / 2 : ℚ) < r / den := by
      rw [lt_div_iff₀ positive]
      have : (den : ℚ) < 2 * r := by exact_mod_cast more
      linarith
    rw [if_neg (Nat.lt_asymm more), if_pos more]
    refine ⟨by push_cast; linarith, by push_cast; linarith, ?_⟩
    push_cast
    rintro (tie | tie) <;> linarith

theorem RoundsTo.le {x y : ℚ} {k l : Nat} (hx : RoundsTo x k) (hy : RoundsTo y l) (h : x ≤ y) :
    k ≤ l := by
  by_contra! less
  have next : (l + 1 : ℚ) ≤ k := by exact_mod_cast less
  have low := hx.low
  have high := hy.high
  -- both are halfway between `l` and the next number, which cannot both be even
  have first := hx.even (.inl (by linarith))
  have second := hy.even (.inr (by linarith))
  have same : (k : ℚ) = l + 1 := by linarith
  have : k = l + 1 := by exact_mod_cast same
  omega

theorem roundsTo_self (k : Nat) : RoundsTo k k :=
  ⟨by linarith, by linarith, by rintro (tie | tie) <;> linarith⟩

theorem RoundsTo.le_of_lt {x : ℚ} {k bound : Nat} (hx : RoundsTo x k) (h : x < bound) : k ≤ bound :=
  hx.le (roundsTo_self bound) h.le

theorem RoundsTo.ge_of_le {x : ℚ} {k bound : Nat} (hx : RoundsTo x k) (h : bound ≤ x) : bound ≤ k :=
  (roundsTo_self bound).le hx h

/-! ## Magnitudes -/

/-- The magnitude nearest to a number: its place on its grid, after the places on finer ones. -/
inductive Nearest (x : ℚ) : Nat → Prop
  | intro {q : Int} {k : Nat} : OnGrid x q → RoundsTo (x * 2 ^ (-q)) k →
    Nearest x ((q + 1074).toNat * Nat.pow 2 52 + k)

theorem OnGrid.scaled {x : ℚ} {q : Int} (h : OnGrid x q) :
    x * 2 ^ (-q) < (2 ^ 53 : Nat) ∧ (q = -1074 ∨ (2 ^ 52 : Nat) ≤ x * 2 ^ (-q)) := by
  have two : (2 : ℚ) ≠ 0 := by norm_num
  have positive : (0 : ℚ) < 2 ^ (-q) := zpow_pos (by norm_num) _
  constructor
  · calc x * 2 ^ (-q) < 2 ^ (q + 53) * 2 ^ (-q) := by gcongr; exact h.below
      _ = (2 ^ 53 : Nat) := by rw [← zpow_add₀ two]; norm_num
  · refine h.above.imp_right fun above => ?_
    calc ((2 ^ 52 : Nat) : ℚ) = 2 ^ (q + 52) * 2 ^ (-q) := by rw [← zpow_add₀ two]; norm_num
      _ ≤ x * 2 ^ (-q) := by gcongr

/-- Rounding keeps the order. -/
theorem Nearest.le {x y : ℚ} {a b : Nat} (hx : Nearest x a) (hy : Nearest y b) (h : x ≤ y) :
    a ≤ b := by
  obtain @⟨q, k, gridX, roundX⟩ := hx
  obtain @⟨r, l, gridY, roundY⟩ := hy
  have finest := gridX.finest
  rcases (gridX.le gridY h).lt_or_eq with finer | rfl
  · have few : k ≤ 2 ^ 53 := roundX.le_of_lt gridX.scaled.1
    have many : 2 ^ 52 ≤ l := by
      refine roundY.ge_of_le (gridY.scaled.2.resolve_left ?_)
      omega
    have : (q + 1074).toNat + 1 ≤ (r + 1074).toNat := by omega
    simp only [Nat.pow_eq]
    omega
  · have : k ≤ l := roundX.le roundY (by gcongr)
    omega

theorem nearest_cases (num : Nat) {den : Nat} (h : 0 < den) :
    ∃ m, Nearest (num / den) m ∧ nearest num den = if m < infinity then some m else none := by
  rcases Nat.eq_zero_or_pos num with rfl | positive
  · refine ⟨0, ?_, by simp [nearest, infinity]⟩
    have grid : OnGrid 0 (-1074) := ⟨le_refl _, by positivity, .inl rfl⟩
    have rounds : RoundsTo (0 * 2 ^ (-(-1074) : Int)) 0 := by simpa using roundsTo_self 0
    simpa using Nearest.intro grid rounds
  · have grid := gridExponent_onGrid positive h
    have rounds := roundDiv_roundsTo (shift num den (-gridExponent num den)).1
      (shift_den_pos num h (-gridExponent num den))
    have same := quotient_shift num den (-gridExponent num den)
    rw [quotient] at same
    rw [same] at rounds
    exact ⟨_, .intro grid rounds, by rw [nearest, if_neg positive.ne']⟩

theorem nearest_lt {num den m : Nat} (h : nearest num den = some m) : m < infinity := by
  unfold nearest at h
  split at h
  · cases h
    decide
  · dsimp only at h
    split at h
    · cases h
      assumption
    · cases h

/-! ### Values -/

/-- The number that a magnitude stands for. -/
def value (m : Nat) : ℚ := mantissa m * 2 ^ exponent m

theorem quotient_ratio (m : Nat) : quotient (ratio m) = value m := by
  simp [ratio, quotient_shift, value]

theorem ratio_den_pos (m : Nat) : 0 < (ratio m).2 := shift_den_pos _ (by decide) _

theorem mantissa_lt (m : Nat) : mantissa m < 2 ^ 53 := by
  unfold mantissa
  simp only [Nat.pow_eq]
  split <;> omega

/-- A magnitude is its place on its grid, after the places on finer ones. -/
theorem place_eq (m : Nat) : (exponent m + 1074).toNat * Nat.pow 2 52 + mantissa m = m := by
  unfold exponent mantissa
  simp only [Nat.pow_eq]
  split <;> omega

theorem value_onGrid (m : Nat) : OnGrid (value m) (exponent m) := by
  have two : (2 : ℚ) ≠ 0 := by norm_num
  have positive : (0 : ℚ) < 2 ^ exponent m := zpow_pos (by norm_num) _
  have few : (mantissa m : ℚ) < 2 ^ (53 : Int) := by exact_mod_cast mantissa_lt m
  have split : exponent m = -1074 ∨ -1074 ≤ exponent m ∧ 2 ^ 52 ≤ mantissa m := by
    unfold exponent mantissa
    simp only [Nat.pow_eq]
    split <;> omega
  refine ⟨?_, ?_, split.imp_right fun ⟨_, many⟩ => ?_⟩
  · omega
  · rw [add_comm, zpow_add₀ two, value]
    gcongr
  · have many : (2 : ℚ) ^ (52 : Int) ≤ mantissa m := by exact_mod_cast many
    rw [add_comm, zpow_add₀ two, value]
    gcongr

/-- A number of the format is its own rounding. -/
theorem nearest_value (m : Nat) : Nearest (value m) m := by
  have positive : (2 : ℚ) ^ exponent m ≠ 0 := (zpow_pos (by norm_num) _).ne'
  have unscaled : value m * 2 ^ (-exponent m) = mantissa m := by
    rw [value, zpow_neg]
    field_simp
  have rounds := roundsTo_self (mantissa m)
  rw [← unscaled] at rounds
  have placed := Nearest.intro (value_onGrid m) rounds
  rwa [place_eq] at placed

theorem value_le {a b : Nat} (h : a ≤ b) : value a ≤ value b := by
  by_contra! less
  have := (nearest_value b).le (nearest_value a) less.le
  obtain rfl : a = b := by omega
  exact lt_irrefl _ less

theorem value_nonneg (m : Nat) : 0 ≤ value m := by
  unfold value
  positivity

/-! ## Arithmetic in range -/

/-- What is at most a finite number has a magnitude, which is no larger. -/
theorem nearest_le {num den M : Nat} (hd : 0 < den) (finite : M < infinity)
    (h : (num / den : ℚ) ≤ value M) : ∃ m ≤ M, nearest num den = some m := by
  obtain ⟨m, rounds, same⟩ := nearest_cases num hd
  have smaller := rounds.le (nearest_value M) h
  exact ⟨m, smaller, by rw [same, if_pos (by omega)]⟩

theorem nearest_mono {num den num' den' M : Nat} (hd : 0 < den) (hd' : 0 < den')
    (h : (num / den : ℚ) ≤ num' / den') (larger : nearest num' den' = some M) :
    ∃ m ≤ M, nearest num den = some m := by
  obtain ⟨m, rounds, same⟩ := nearest_cases num hd
  obtain ⟨m', rounds', same'⟩ := nearest_cases num' hd'
  have smaller := rounds.le rounds' h
  rw [same'] at larger
  split at larger
  · cases larger
    exact ⟨m, smaller, by rw [same, if_pos (by omega)]⟩
  · cases larger

theorem multiply_le {a b A B M : Nat} (ha : a ≤ A) (hb : b ≤ B) (h : multiply A B = some M) :
    ∃ m ≤ M, multiply a b = some m := by
  have product (a b : Nat) : (((ratio a).1 * (ratio b).1 : Nat) / ((ratio a).2 * (ratio b).2 : Nat)
      : ℚ) = value a * value b := by
    rw [← quotient_ratio, ← quotient_ratio, quotient, quotient]
    push_cast
    exact mul_div_mul_comm _ _ _ _
  refine nearest_mono (Nat.mul_pos (ratio_den_pos a) (ratio_den_pos b))
    (Nat.mul_pos (ratio_den_pos A) (ratio_den_pos B)) ?_ h
  rw [product, product]
  exact mul_le_mul (value_le ha) (value_le hb) (value_nonneg b) (value_nonneg A)

/-- Dividing by a number from 1 on makes nothing larger. -/
theorem divide_le {a b : Nat} (finite : a < infinity) (h : 1 ≤ value b) :
    ∃ m ≤ a, divide a b = some m := by
  have den := ratio_den_pos b
  have num : 0 < (ratio b).1 := by
    rw [Nat.pos_iff_ne_zero]
    intro zero
    rw [← quotient_ratio, quotient, zero] at h
    norm_num at h
  refine nearest_le (Nat.mul_pos (ratio_den_pos a) num) finite ?_
  have same : (((ratio a).1 * (ratio b).2 : Nat) / ((ratio a).2 * (ratio b).1 : Nat) : ℚ) =
      value a / value b := by
    rw [← quotient_ratio, ← quotient_ratio, quotient, quotient, div_div_div_eq]
    push_cast
    rfl
  rw [same]
  exact div_le_self (value_nonneg a) h

/-! ### Powers of ten -/

theorem nearest_pow_le {e f p : Nat} (h : e ≤ f) (larger : nearest (Nat.pow 10 f) 1 = some p) :
    ∃ m ≤ p, nearest (Nat.pow 10 e) 1 = some m := by
  have smaller : (Nat.pow 10 e : Nat) ≤ Nat.pow 10 f := Nat.pow_le_pow_right (by decide) h
  refine nearest_mono (by decide) (by decide) ?_ larger
  gcongr

/-- Powers up to this one are in range. -/
theorem nearest_pow_ten {e : Nat} (h : e ≤ 308) :
    nearest (Nat.pow 10 e) 1 = some (powerOfTen e) := by
  obtain ⟨most, limit⟩ : ∃ most, most = 308 := ⟨_, rfl⟩
  have largest : nearest (Nat.pow 10 most) 1 = some (powerOfTen most) := by
    subst limit
    decide +kernel
  obtain ⟨m, _, same⟩ := nearest_pow_le (h.trans limit.ge) largest
  rw [powerOfTen, same]
  rfl

theorem powerOfTen_le {e f : Nat} (h : e ≤ f) (most : f ≤ 308) : powerOfTen e ≤ powerOfTen f := by
  obtain ⟨m, smaller, same⟩ := nearest_pow_le h (nearest_pow_ten most)
  rw [nearest_pow_ten (h.trans most)] at same
  obtain rfl := Option.some.inj same
  exact smaller

theorem one_le_powerOfTen {e : Nat} (h : e ≤ 308) : 1 ≤ value (powerOfTen e) := by
  have one : value (powerOfTen 0) = 1 := by
    have mantissa : mantissa (powerOfTen 0) = 2 ^ 52 := by decide +kernel
    have exponent : exponent (powerOfTen 0) = -52 := by decide +kernel
    rw [value, mantissa, exponent]
    norm_num
  rw [← one]
  exact value_le (powerOfTen_le (Nat.zero_le e) h)

/-! ### Scaling -/

theorem scale_lt {m r : Nat} {e : Int} (h : scale m e = some r) : r < infinity := by
  induction m, e using scale.induct with
  | case1 e =>
    rw [scale, if_pos rfl] at h
    cases h
    decide
  | case2 m e nonzero up few =>
    rw [scale, if_neg nonzero, if_pos up, if_pos few] at h
    exact nearest_lt h
  | case3 m e nonzero up many =>
    rw [scale, if_neg nonzero, if_pos up, if_neg many] at h
    cases h
  | case4 m e nonzero down few =>
    rw [scale, if_neg nonzero, if_neg down, if_pos few] at h
    exact nearest_lt h
  | case5 m e nonzero down many ih =>
    rw [scale, if_neg nonzero, if_neg down, if_neg many] at h
    obtain ⟨next, _, h⟩ := Option.bind_eq_some_iff.1 h
    exact ih next h

/-- A finite number divided by a power of ten is finite. -/
theorem scale_negative {m : Nat} (finite : m < infinity) {e : Int} (h : e < 0) :
    ∃ r, scale m e = some r := by
  induction m, e using scale.induct with
  | case1 e => exact ⟨0, by rw [scale, if_pos rfl]⟩
  | case2 m e nonzero up | case3 m e nonzero up => omega
  | case4 m e nonzero down few =>
    obtain ⟨r, _, divided⟩ := divide_le finite
      (one_le_powerOfTen (show (-e).toNat ≤ 308 by omega))
    exact ⟨r, by rw [scale, if_neg nonzero, if_neg down, if_pos few, divided]⟩
  | case5 m e nonzero down many ih =>
    obtain ⟨next, smaller, divided⟩ := divide_le finite (one_le_powerOfTen (le_refl 308))
    obtain ⟨r, scaled⟩ := ih next (by omega) (by omega)
    exact ⟨r, by rw [scale, if_neg nonzero, if_neg down, if_neg many, divided]; exact scaled⟩

theorem scaled_lt {negative : Bool} {significand : Nat} {e : Int} {x : Binary64}
    (h : scaled negative significand e = some x) : x.magnitude < infinity := by
  obtain ⟨r, scaled, rfl⟩ := Option.map_eq_some_iff.1 h
  obtain ⟨m, _, scaled⟩ := Option.bind_eq_some_iff.1 scaled
  exact scale_lt scaled

/-- Digits after a point never make a number too large. -/
theorem scaled_negative (negative : Bool) {significand : Nat} (h : significand < 2 ^ 64) {e : Int}
    (down : e < 0) : ∃ x, scaled negative significand e = some x := by
  obtain ⟨M, largest⟩ : ∃ M, nearest (2 ^ 64) 1 = some M := ⟨_, rfl⟩
  have smaller : (significand / (1 : Nat) : ℚ) ≤ (2 ^ 64 : Nat) / (1 : Nat) := by
    gcongr
  obtain ⟨m, _, rounded⟩ := nearest_mono (by decide) (by decide) smaller largest
  obtain ⟨r, scaled⟩ := scale_negative (nearest_lt rounded) down
  exact ⟨⟨negative, r⟩, by simp [Binary64.scaled, rounded, scaled]⟩

end ControllerHooks.Binary64
