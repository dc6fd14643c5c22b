import Mathlib.Algebra.Order.Field.Power
import Mathlib.Tactic.FieldSimp
import Mathlib.Tactic.Linarith
import Mathlib.Tactic.NormNum
import Mathlib.Tactic.Positivity
import Mathlib.Tactic.Ring
import Clausal.Decimal.Shortest

/-!
# Rounding to the nearest double

A double takes every number that is nearer to it than to the next doubles, and the numbers halfway between
if its mantissa is even (`Binary.Takes`).  Arithmetic on doubles computes a mantissa with a rounding bit and
a sticky bit, which say of the exact result how its fraction compares to one half (`Represents`).  They
survive shifting, so the rounded result is the double that takes the exact one: `roundWithAccuracy_eq`, and
from it `div_eq` and `mul_eq`.

All numbers are fractions: no value is rounded in a statement.
-/

namespace Clausal
namespace Decimal

open Float.Model Float.Model.UnpackedFloat

/-! ## Doubles as fractions -/

namespace Binary

/-- A mantissa of at most 53 bits, with a leading one unless the exponent is the lowest. -/
structure Canonical (b : Binary) : Prop where
  pos : 0 < b.mantissa
  lt : b.mantissa < 2 * hiddenBit
  lowest : -1074 ≤ b.exponent
  highest : b.exponent ≤ 971
  normal : -1074 < b.exponent → hiddenBit ≤ b.mantissa

/-- The distance to the end of the interval below, in units of the last bit. -/
def below (b : Binary) : ℚ := if b.mantissa = hiddenBit ∧ -1074 < b.exponent then 1 / 4 else 1 / 2

/-- The numbers that round to a double: those in its interval, with the ends if the mantissa is even. -/
def Takes (b : Binary) (v : ℚ) : Prop :=
  (b.mantissa - b.below < v / 2 ^ b.exponent ∧ v / 2 ^ b.exponent < b.mantissa + 1 / 2) ∨
    b.mantissa % 2 = 0 ∧ b.mantissa - b.below ≤ v / 2 ^ b.exponent ∧
      v / 2 ^ b.exponent ≤ b.mantissa + 1 / 2

variable {b : Binary} {v : ℚ}

theorem below_le (b : Binary) : b.below ≤ 1 / 2 := by
  unfold below
  split <;> norm_num

theorem below_pos (b : Binary) : 0 < b.below := by
  unfold below
  split <;> norm_num

/-- A double takes its own value. -/
theorem takes_self (value : (b.mantissa : ℚ) * 2 ^ b.exponent = v) : b.Takes v := by
  have scaled : v / 2 ^ b.exponent = b.mantissa := by
    rw [div_eq_iff (by positivity), value]
  rw [Takes, scaled]
  exact .inl ⟨by linarith [b.below_pos], by linarith⟩

theorem Takes.bounds (takes : b.Takes v) :
    b.mantissa - b.below ≤ v / 2 ^ b.exponent ∧ v / 2 ^ b.exponent ≤ b.mantissa + 1 / 2 := by
  rcases takes with ⟨low, high⟩ | ⟨-, low, high⟩
  · exact ⟨low.le, high.le⟩
  · exact ⟨low, high⟩

end Binary

/-! ## Extended mantissas -/

/-- The whole part of a number, and how its fraction compares to one half. -/
def Represents (em : ExtendedMantissa) (x : ℚ) : Prop :=
  match em.roundBit, em.stickyBit with
  | false, false => x = em.mantissa
  | false, true => em.mantissa < x ∧ x < em.mantissa + 1 / 2
  | true, false => x = em.mantissa + 1 / 2
  | true, true => em.mantissa + 1 / 2 < x ∧ x < em.mantissa + 1

namespace Represents

variable {em : ExtendedMantissa} {x : ℚ}

theorem bounds (h : Represents em x) : em.mantissa ≤ x ∧ x < em.mantissa + 1 := by
  rcases em with ⟨m, r, s⟩
  cases r <;> cases s <;> simp only [Represents] at h ⊢ <;> constructor <;> linarith

/-- Halving a number shifts its bits. -/
theorem shiftRightOne (h : Represents em x) : Represents em.shiftRightOne (x / 2) := by
  rcases em with ⟨m, r, s⟩
  rcases Nat.even_or_odd' m with ⟨k, rfl | rfl⟩
  · have half : 2 * k / 2 = k := by omega
    have even : (2 * k % 2 != 0) = false := by simp
    cases r <;> cases s <;>
      simp only [Represents, ExtendedMantissa.shiftRightOne, half, even, Bool.or_false, Bool.or_true,
        Nat.cast_mul, Nat.cast_ofNat] at h ⊢ <;>
      first | linarith | (constructor <;> linarith)
  · have half : (2 * k + 1) / 2 = k := by omega
    have odd : ((2 * k + 1) % 2 != 0) = true := by simp [Nat.add_mod]
    cases r <;> cases s <;>
      simp only [Represents, ExtendedMantissa.shiftRightOne, half, odd, Bool.or_false, Bool.or_true,
        Nat.cast_mul, Nat.cast_ofNat, Nat.cast_add, Nat.cast_one] at h ⊢ <;>
      first | linarith | (constructor <;> linarith)

theorem shiftRight (h : Represents em x) (n : Nat) : Represents (em >>> n) (x / 2 ^ n) := by
  induction n with
  | zero =>
      have unshifted : em >>> 0 = em := rfl
      simpa [unshifted] using h
  | succ n ih =>
      have step := ih.shiftRightOne
      rwa [div_div, ← pow_succ] at step

/-- Rounding gives the integer that is nearest, and of two the even one. -/
theorem roundedMantissa_eq (h : Represents em x) {n : Nat}
    (near : ((n : ℚ) - 1 / 2 < x ∧ x < n + 1 / 2) ∨
      n % 2 = 0 ∧ (n : ℚ) - 1 / 2 ≤ x ∧ x ≤ n + 1 / 2) :
    em.roundedMantissa = n := by
  rcases em with ⟨m, r, s⟩
  have weak : (n : ℚ) - 1 / 2 ≤ x ∧ x ≤ n + 1 / 2 := by
    rcases near with ⟨low, high⟩ | ⟨-, low, high⟩
    · exact ⟨low.le, high.le⟩
    · exact ⟨low, high⟩
  cases r <;> cases s <;>
    simp only [Represents, ExtendedMantissa.roundedMantissa, ExtendedMantissa.accuracy,
      Accuracy.roundToNearestEven] at h ⊢
  · -- The number is whole.
    have low : (n : ℚ) < (m + 1 : Nat) := by push_cast; linarith
    have high : (m : ℚ) < (n + 1 : Nat) := by push_cast; linarith
    have := Nat.cast_lt.mp low
    have := Nat.cast_lt.mp high
    omega
  · have low : (n : ℚ) < (m + 1 : Nat) := by push_cast; linarith
    have high : (m : ℚ) < (n + 1 : Nat) := by push_cast; linarith
    have := Nat.cast_lt.mp low
    have := Nat.cast_lt.mp high
    omega
  · -- The number lies halfway: only an even one of its neighbours is near enough.
    rcases near with ⟨low, high⟩ | ⟨even, -⟩
    · have after : (n : ℚ) < (m + 1 : Nat) := by push_cast; linarith
      have before : (m : ℚ) < n := by linarith
      have := Nat.cast_lt.mp after
      have := Nat.cast_lt.mp before
      omega
    · have low : (n : ℚ) ≤ (m + 1 : Nat) := by push_cast; linarith
      have high : (m : ℚ) ≤ n := by linarith
      have := Nat.cast_le.mp low
      have := Nat.cast_le.mp high
      omega
  · have low : (n : ℚ) < (m + 2 : Nat) := by push_cast; linarith
    have high : (m : ℚ) < n := by linarith
    have := Nat.cast_lt.mp low
    have := Nat.cast_lt.mp high
    omega

/-- A quotient with its remainder. -/
theorem ofFraction {q r d : Nat} (small : r < d) :
    Represents (.ofMantissaAndAccuracy q (accuracyOfFraction r d)) (q + r / d) := by
  have positive : (0 : ℚ) < d := by exact_mod_cast Nat.zero_lt_of_lt small
  have less : (r : ℚ) < d := by exact_mod_cast small
  unfold accuracyOfFraction
  split
  next zero => simp [Represents, ExtendedMantissa.ofMantissaAndAccuracy, zero]
  next nonzero =>
      have part : (0 : ℚ) < r := by exact_mod_cast Nat.pos_of_ne_zero nonzero
      have fraction : (0 : ℚ) < r / d := by positivity
      have whole : (r : ℚ) / d < 1 := (div_lt_one positive).mpr less
      -- Where the remainder lies against half of the divisor tells the two bits behind the quotient.
      cases order : compare (2 * r) d with
      | lt =>
          have half : (2 * r : ℚ) < d := by exact_mod_cast Nat.compare_eq_lt.mp order
          have : (r : ℚ) / d < 1 / 2 := by rw [div_lt_div_iff₀ positive two_pos]; linarith
          simp only [Represents, ExtendedMantissa.ofMantissaAndAccuracy]
          constructor <;> linarith
      | eq =>
          have half : (2 * r : ℚ) = d := by exact_mod_cast Nat.compare_eq_eq.mp order
          have : (r : ℚ) / d = 1 / 2 := by rw [div_eq_div_iff positive.ne' two_ne_zero]; linarith
          simp only [Represents, ExtendedMantissa.ofMantissaAndAccuracy, this]
      | gt =>
          have half : (d : ℚ) < 2 * r := by exact_mod_cast Nat.compare_eq_gt.mp order
          have : 1 / 2 < (r : ℚ) / d := by rw [div_lt_div_iff₀ two_pos positive]; linarith
          simp only [Represents, ExtendedMantissa.ofMantissaAndAccuracy]
          constructor <;> linarith

end Represents

/-! ## Rounding -/

section Round

variable {b : Binary} {m : Nat} {e : Int} {accuracy : Accuracy} {v : ℚ}

theorem targetExponent_eq (m : Nat) (e : Int) :
    Format.binary64.targetExponent (totalExponent m e) = max (m.log2 + e - 52) (-1074) := by
  have bits : (Format.binary64.mantissaBits : Int) = 53 := rfl
  have least : Format.binary64.minExponent = -1074 := rfl
  rw [Format.targetExponent, totalExponent, bits, least]
  congr 1
  omega

/-- The exponent of a double is the one that its mantissa asks for. -/
theorem Binary.Canonical.targetExponent (canonical : b.Canonical) :
    Format.binary64.targetExponent (totalExponent b.mantissa b.exponent) = b.exponent := by
  have positive := canonical.pos.ne'
  have bits : b.mantissa.log2 < 53 := (Nat.log2_lt positive).mpr canonical.lt
  have lowest := canonical.lowest
  rw [targetExponent_eq]
  by_cases normal : -1074 < b.exponent
  · have leading : ¬ b.mantissa.log2 < 52 :=
      mt (Nat.log2_lt positive).mp (Nat.not_lt.mpr (canonical.normal normal))
    omega
  · omega

theorem mantissa_ofMantissaAndAccuracy (m : Nat) (accuracy : Accuracy) :
    (ExtendedMantissa.ofMantissaAndAccuracy m accuracy).mantissa = m := by
  rcases accuracy with _ | order
  · rfl
  · cases order <;> rfl

/-- A number lies between the powers of two that its whole part gives. -/
theorem Represents.zpow_bounds
    (h : Represents (.ofMantissaAndAccuracy m accuracy) (v / 2 ^ e)) (positive : m ≠ 0) :
    (2 : ℚ) ^ (m.log2 + e) ≤ v ∧ v < 2 ^ (m.log2 + e + 1) := by
  have unit : (0 : ℚ) < 2 ^ e := by positivity
  have bounds := h.bounds
  rw [mantissa_ofMantissaAndAccuracy, le_div_iff₀ unit, div_lt_iff₀ unit] at bounds
  have low : (2 : ℚ) ^ m.log2 ≤ m := by exact_mod_cast Nat.log2_self_le positive
  have high : (m : ℚ) + 1 ≤ 2 ^ (m.log2 + 1) := by exact_mod_cast Nat.lt_log2_self
  constructor
  · calc (2 : ℚ) ^ (m.log2 + e) = 2 ^ m.log2 * 2 ^ e := by rw [zpow_add₀ two_ne_zero, zpow_natCast]
      _ ≤ m * 2 ^ e := by gcongr
      _ ≤ v := bounds.1
  · calc v < (m + 1) * 2 ^ e := bounds.2
      _ ≤ 2 ^ (m.log2 + 1) * 2 ^ e := by gcongr
      _ = 2 ^ (m.log2 + e + 1) := by
        rw [← zpow_natCast, ← zpow_add₀ two_ne_zero]
        congr 1
        push_cast
        ring

/-- What a double takes, in units of its last bit. -/
theorem Binary.Takes.scaled (takes : b.Takes v) :
    (b.mantissa - b.below) * 2 ^ b.exponent ≤ v ∧ v ≤ (b.mantissa + 1 / 2) * 2 ^ b.exponent := by
  have unit : (0 : ℚ) < 2 ^ b.exponent := by positivity
  have bounds := takes.bounds
  rwa [le_div_iff₀ unit, div_le_iff₀ unit] at bounds

/-- What a double takes has no more bits than the double. -/
theorem Binary.Takes.lt_zpow (canonical : b.Canonical) (takes : b.Takes v) :
    v < 2 ^ (b.exponent + 53) := by
  have small : (b.mantissa : ℚ) + 1 ≤ 2 ^ 53 := by exact_mod_cast canonical.lt
  calc v ≤ (b.mantissa + 1 / 2) * 2 ^ b.exponent := takes.scaled.2
    _ < 2 ^ 53 * 2 ^ b.exponent := by gcongr; linarith
    _ = 2 ^ (b.exponent + 53) := by rw [zpow_add₀ two_ne_zero, mul_comm]; norm_num

/-- Doubles only take numbers of their range. -/
theorem Binary.Takes.range (canonical : b.Canonical) (takes : b.Takes v) :
    (2 : ℚ) ^ (-1075 : Int) ≤ v ∧ v < 2 ^ (1024 : Int) := by
  have highest := canonical.highest
  have whole : (1 : ℚ) ≤ b.mantissa := by exact_mod_cast canonical.pos
  constructor
  · have sum : (-1075 : Int) = -1 + -1074 := rfl
    have half : (2 : ℚ) ^ (-1075 : Int) = 1 / 2 * 2 ^ (-1074 : Int) := by
      rw [sum, zpow_add₀ two_ne_zero, zpow_neg_one, one_div]
    calc (2 : ℚ) ^ (-1075 : Int) = 1 / 2 * 2 ^ (-1074 : Int) := half
      _ ≤ (b.mantissa - b.below) * 2 ^ b.exponent := by
        gcongr
        · linarith [b.below_le]
        · linarith [b.below_le]
        · norm_num
        · exact canonical.lowest
      _ ≤ v := takes.scaled.1
  · exact (takes.lt_zpow canonical).trans_le (zpow_le_zpow_right₀ one_le_two (by omega))

/-- What a double with a leading one takes is at least one unit of its last bit. -/
theorem Binary.Takes.zpow_le (normal : hiddenBit ≤ b.mantissa) (takes : b.Takes v) :
    (2 : ℚ) ^ b.exponent ≤ v := by
  have leading : ((2 : ℚ) ^ 52) ≤ b.mantissa := by exact_mod_cast normal
  calc (2 : ℚ) ^ b.exponent = 1 * 2 ^ b.exponent := (one_mul _).symm
    _ ≤ (b.mantissa - b.below) * 2 ^ b.exponent := by
      gcongr
      linarith [b.below_le]
    _ ≤ v := takes.scaled.1

/-- A number that a double with a leading one takes, but that has fewer bits, lies just below a power of
two. -/
theorem Binary.Takes.of_lt_zpow (normal : hiddenBit ≤ b.mantissa) (takes : b.Takes v)
    (short : v < 2 ^ (b.exponent + 52)) :
    b.mantissa = hiddenBit ∧ (2 : ℚ) ^ (b.exponent + 51) < v := by
  have unit : (0 : ℚ) < 2 ^ b.exponent := by positivity
  have power : (2 : ℚ) ^ (b.exponent + 52) = 2 ^ 52 * 2 ^ b.exponent := by
    rw [zpow_add₀ two_ne_zero, mul_comm]
    norm_num
  have less : (b.mantissa : ℚ) - b.below < 2 ^ 52 := by
    rw [power] at short
    exact lt_of_mul_lt_mul_right (takes.scaled.1.trans_lt short) unit.le
  have mantissa : b.mantissa = hiddenBit := by
    have : (b.mantissa : ℚ) < (2 ^ 52 + 1 : Nat) := by
      push_cast
      linarith [b.below_le]
    have := Nat.cast_lt.mp this
    unfold hiddenBit at normal ⊢
    omega
  refine ⟨mantissa, ?_⟩
  calc (2 : ℚ) ^ (b.exponent + 51) = 2 ^ 51 * 2 ^ b.exponent := by
        rw [zpow_add₀ two_ne_zero, mul_comm]
        norm_num
    _ < (b.mantissa - b.below) * 2 ^ b.exponent := by
        gcongr
        rw [mantissa, hiddenBit]
        push_cast
        linarith [b.below_le]
    _ ≤ v := takes.scaled.1

/-- The exponent at which a number is rounded is that of the double that takes it, or one less where the
number lies just below a power of two. -/
theorem targetExponent_cases (canonical : b.Canonical) (takes : b.Takes v)
    (h : Represents (.ofMantissaAndAccuracy m accuracy) (v / 2 ^ e))
    (low : e ≤ Format.binary64.targetExponent (totalExponent m e)) :
    Format.binary64.targetExponent (totalExponent m e) = b.exponent ∨
      Format.binary64.targetExponent (totalExponent m e) = b.exponent - 1 ∧
        b.mantissa = hiddenBit ∧ -1074 < b.exponent ∧ v < 2 ^ (b.exponent + 52) := by
  have lowest := canonical.lowest
  rw [targetExponent_eq] at low ⊢
  by_cases zero : m = 0
  · -- No bit of the number is left of the lowest exponent.
    subst zero
    rw [Nat.log2_zero] at low ⊢
    have small : v < 2 ^ e := by
      have bounds := h.bounds
      rw [mantissa_ofMantissaAndAccuracy, div_lt_iff₀ (by positivity)] at bounds
      simpa using bounds.2
    by_cases inside : -1074 < b.exponent
    · have large := takes.zpow_le (canonical.normal inside)
      have less := (zpow_lt_zpow_iff_right₀ one_lt_two).mp (large.trans_lt small)
      omega
    · omega
  · obtain ⟨from_, below⟩ := h.zpow_bounds zero
    have upper := (zpow_lt_zpow_iff_right₀ one_lt_two).mp
      (from_.trans_lt (takes.lt_zpow canonical))
    by_cases whole : b.exponent ≤ m.log2 + e - 52 ∨ b.exponent = -1074
    · omega
    · have inside : -1074 < b.exponent := by omega
      have short : v < 2 ^ (b.exponent + 52) :=
        below.trans_le (zpow_le_zpow_right₀ one_le_two (by omega))
      obtain ⟨mantissa, large⟩ := takes.of_lt_zpow (canonical.normal inside) short
      have lower := (zpow_lt_zpow_iff_right₀ one_lt_two).mp (large.trans below)
      refine .inr ⟨?_, mantissa, inside, short⟩
      omega

theorem shiftToTargetExponent_eq (accuracy : Accuracy) {t : Int}
    (target : Format.binary64.targetExponent (totalExponent m e) = t) :
    shiftToTargetExponent Format.binary64 m e accuracy =
      (ExtendedMantissa.ofMantissaAndAccuracy m accuracy >>> (t - e).toNat,
        e + ((t - e).toNat : Int)) := by
  subst target
  rfl

theorem shiftToTargetExponent_canonical (canonical : b.Canonical) :
    shiftToTargetExponent Format.binary64 b.mantissa b.exponent .exact =
      (⟨b.mantissa, false, false⟩, b.exponent) := by
  rw [shiftToTargetExponent_eq .exact canonical.targetExponent, Int.sub_self]
  simp only [Int.toNat_zero, Nat.cast_zero, Int.add_zero]
  rfl

/-- A carry into the next bit is shifted out again. -/
theorem shiftToTargetExponent_carry {e : Int} (inside : -1074 ≤ e) :
    shiftToTargetExponent Format.binary64 (2 * hiddenBit) e .exact =
      (⟨hiddenBit, false, false⟩, e + 1) := by
  have bits : (2 * hiddenBit).log2 = 53 := by decide
  have target : Format.binary64.targetExponent (totalExponent (2 * hiddenBit) e) = e + 1 := by
    rw [targetExponent_eq, bits]
    omega
  have one : (e + 1 - e).toNat = 1 := by omega
  rw [shiftToTargetExponent_eq .exact target, one]
  rfl

/-- What is rounded to a mantissa that the second shift leaves canonical is that double. -/
theorem roundWithAccuracy_of_shifts {t : Int} {n : Nat} {extended : ExtendedMantissa}
    (canonical : b.Canonical) (sign : Sign)
    (first : shiftToTargetExponent Format.binary64 m e accuracy = (extended, t))
    (rounded : extended.roundedMantissa = n)
    (second : shiftToTargetExponent Format.binary64 n t .exact = (⟨b.mantissa, false, false⟩, b.exponent)) :
    roundWithAccuracy Format.binary64 sign m e accuracy =
      .finite sign b.mantissa b.exponent canonical.pos := by
  unfold roundWithAccuracy
  rw [first]
  dsimp only
  rw [rounded, second]
  exact dif_neg canonical.pos.ne'

/-- Rounding gives the double that takes the number. -/
theorem roundWithAccuracy_eq (canonical : b.Canonical) (takes : b.Takes v) (sign : Sign)
    (h : Represents (.ofMantissaAndAccuracy m accuracy) (v / 2 ^ e))
    (low : e ≤ Format.binary64.targetExponent (totalExponent m e)) :
    roundWithAccuracy Format.binary64 sign m e accuracy =
      .finite sign b.mantissa b.exponent canonical.pos := by
  have cases := targetExponent_cases canonical takes h low
  generalize target : Format.binary64.targetExponent (totalExponent m e) = t at low cases
  have shifted := h.shiftRight (t - e).toNat
  have exponent : e + ((t - e).toNat : Int) = t := by omega
  have scale : v / 2 ^ e / 2 ^ (t - e).toNat = v / 2 ^ t := by
    rw [div_div, ← zpow_natCast, ← zpow_add₀ two_ne_zero, exponent]
  rw [scale] at shifted
  have first : shiftToTargetExponent Format.binary64 m e accuracy =
      (ExtendedMantissa.ofMantissaAndAccuracy m accuracy >>> (t - e).toNat, t) := by
    rw [shiftToTargetExponent_eq accuracy target, exponent]
  rcases cases with rfl | ⟨rfl, mantissa, inside, short⟩
  · have rounded := shifted.roundedMantissa_eq (n := b.mantissa) (by
      have gap := b.below_le
      rcases takes with ⟨low, high⟩ | ⟨even, low, high⟩
      · exact .inl ⟨by linarith, high⟩
      · exact .inr ⟨even, by linarith, high⟩)
    exact roundWithAccuracy_of_shifts canonical sign first rounded (shiftToTargetExponent_canonical canonical)
  · -- Just below a power of two there is one bit more, and rounding carries into the next.
    have double : v / 2 ^ (b.exponent - 1) = 2 * (v / 2 ^ b.exponent) := by
      rw [zpow_sub_one₀ two_ne_zero]
      field_simp
    have lower : (hiddenBit : ℚ) - 1 / 4 ≤ v / 2 ^ b.exponent := by
      have bound := takes.bounds.1
      rwa [Binary.below, if_pos ⟨mantissa, inside⟩, mantissa] at bound
    have upper : v / 2 ^ b.exponent < hiddenBit := by
      rw [div_lt_iff₀ (by positivity), hiddenBit]
      rwa [zpow_add₀ two_ne_zero, mul_comm] at short
    have rounded := shifted.roundedMantissa_eq (n := 2 * hiddenBit) (by
      rw [double]
      push_cast
      exact .inr ⟨rfl, by linarith, by linarith⟩)
    have carried := shiftToTargetExponent_carry (Int.le_sub_one_of_lt inside)
    refine roundWithAccuracy_of_shifts canonical sign first rounded ?_
    rw [carried, mantissa, Int.sub_add_cancel]

/-- A mantissa with enough bits is never shifted to the left. -/
theorem le_targetExponent (enough : e ≤ -1074 ∨ hiddenBit ≤ m) :
    e ≤ Format.binary64.targetExponent (totalExponent m e) := by
  rw [targetExponent_eq]
  rcases enough with low | leading
  · omega
  · have nonzero : m ≠ 0 := by
      rintro rfl
      cases leading
    have bits : 52 ≤ m.log2 := (Nat.le_log2 nonzero).mpr leading
    omega

/-- A product of doubles is the double that takes it. -/
theorem mul_eq {m₁ m₂ : Nat} {e₁ e₂ : Int} (pos₁ : 0 < m₁) (pos₂ : 0 < m₂) (canonical : b.Canonical)
    (enough : hiddenBit ≤ m₁ * m₂) (takes : b.Takes (m₁ * 2 ^ e₁ * (m₂ * 2 ^ e₂))) :
    mul Format.binary64 (.finite .positive m₁ e₁ pos₁) (.finite .positive m₂ e₂ pos₂) =
      .finite .positive b.mantissa b.exponent canonical.pos := by
  refine roundWithAccuracy_eq canonical takes _ ?_ (le_targetExponent (.inr enough))
  have value : (m₁ : ℚ) * 2 ^ e₁ * (m₂ * 2 ^ e₂) / 2 ^ (e₁ + e₂) = (m₁ * m₂ : Nat) := by
    rw [zpow_add₀ two_ne_zero]
    push_cast
    field_simp
  rw [value]
  exact rfl

section Quotient

variable {m₁ m₂ : Nat} {e₁ e₂ : Int}

/-- The exponent at which a quotient is computed. -/
def quotientExponent (m₁ : Nat) (e₁ : Int) (m₂ : Nat) (e₂ : Int) : Int :=
  min (e₁ - e₂) (Format.binary64.targetExponent (totalExponent m₁ e₁ - totalExponent m₂ e₂))

/-- The dividend is extended so far that the quotient has all bits of a mantissa, down to the lowest
exponent. -/
theorem hiddenBit_le_quotient (pos₁ : 0 < m₁) (pos₂ : 0 < m₂)
    (inside : -1074 < quotientExponent m₁ e₁ m₂ e₂) :
    hiddenBit ≤ m₁ <<< (e₁ - e₂ - quotientExponent m₁ e₁ m₂ e₂).toNat / m₂ := by
  have bits : (Format.binary64.mantissaBits : Int) = 53 := rfl
  have least : Format.binary64.minExponent = -1074 := rfl
  generalize exponent : quotientExponent m₁ e₁ m₂ e₂ = t at inside ⊢
  rw [quotientExponent, Format.targetExponent, totalExponent, totalExponent, bits, least] at exponent
  have long : m₂.log2 + 53 ≤ m₁.log2 + (e₁ - e₂ - t).toNat := by omega
  have divisor : m₂ < 2 ^ (m₂.log2 + 1) := Nat.lt_log2_self
  have dividend : 2 ^ m₁.log2 ≤ m₁ := Nat.log2_self_le pos₁.ne'
  rw [Nat.le_div_iff_mul_le pos₂, Nat.shiftLeft_eq]
  calc hiddenBit * m₂ ≤ 2 ^ 52 * 2 ^ (m₂.log2 + 1) := Nat.mul_le_mul (Nat.le_refl _) divisor.le
    _ = 2 ^ (m₂.log2 + 53) := by rw [← Nat.pow_add]; congr 1; omega
    _ ≤ 2 ^ (m₁.log2 + (e₁ - e₂ - t).toNat) := Nat.pow_le_pow_right (by decide) long
    _ = 2 ^ m₁.log2 * 2 ^ (e₁ - e₂ - t).toNat := Nat.pow_add ..
    _ ≤ m₁ * 2 ^ (e₁ - e₂ - t).toNat := Nat.mul_le_mul_right _ dividend

/-- A quotient of doubles is the double that takes it. -/
theorem div_eq (pos₁ : 0 < m₁) (pos₂ : 0 < m₂) (canonical : b.Canonical)
    (takes : b.Takes (m₁ * 2 ^ e₁ / (m₂ * 2 ^ e₂))) :
    div Format.binary64 (.finite .positive m₁ e₁ pos₁) (.finite .positive m₂ e₂ pos₂) =
      .finite .positive b.mantissa b.exponent canonical.pos := by
  have enough : quotientExponent m₁ e₁ m₂ e₂ ≤ -1074 ∨
      hiddenBit ≤ m₁ <<< (e₁ - e₂ - quotientExponent m₁ e₁ m₂ e₂).toNat / m₂ := by
    by_cases inside : -1074 < quotientExponent m₁ e₁ m₂ e₂
    · exact .inr (hiddenBit_le_quotient pos₁ pos₂ inside)
    · exact .inl (Int.not_lt.mp inside)
  refine roundWithAccuracy_eq canonical takes _ ?_ (le_targetExponent enough)
  have atMost : quotientExponent m₁ e₁ m₂ e₂ ≤ e₁ - e₂ := Int.min_le_left ..
  change Represents (.ofMantissaAndAccuracy
    (m₁ <<< (e₁ - e₂ - quotientExponent m₁ e₁ m₂ e₂).toNat / m₂)
    (accuracyOfFraction (m₁ <<< (e₁ - e₂ - quotientExponent m₁ e₁ m₂ e₂).toNat % m₂) m₂))
    (m₁ * 2 ^ e₁ / (m₂ * 2 ^ e₂) / 2 ^ quotientExponent m₁ e₁ m₂ e₂)
  generalize quotientExponent m₁ e₁ m₂ e₂ = t at atMost ⊢
  have fraction := @Represents.ofFraction (m₁ <<< (e₁ - e₂ - t).toNat / m₂) _ _
    (Nat.mod_lt (m₁ <<< (e₁ - e₂ - t).toNat) pos₂)
  have positive : (m₂ : ℚ) ≠ 0 := by exact_mod_cast pos₂.ne'
  have shift : (2 : ℚ) ^ (e₁ - e₂ - t).toNat = 2 ^ e₁ / 2 ^ e₂ / 2 ^ t := by
    rw [← zpow_natCast, Int.toNat_of_nonneg (by omega), zpow_sub₀ two_ne_zero, zpow_sub₀ two_ne_zero]
  -- The whole part and the remainder make up the quotient.
  have parts : ((m₁ <<< (e₁ - e₂ - t).toNat / m₂ : Nat) : ℚ) +
      (m₁ <<< (e₁ - e₂ - t).toNat % m₂ : Nat) / m₂ = m₁ * 2 ^ e₁ / (m₂ * 2 ^ e₂) / 2 ^ t := by
    have whole : (m₁ <<< (e₁ - e₂ - t).toNat : Nat) =
        m₂ * (m₁ <<< (e₁ - e₂ - t).toNat / m₂) + m₁ <<< (e₁ - e₂ - t).toNat % m₂ :=
      (Nat.div_add_mod ..).symm
    have cast : (m₁ : ℚ) * 2 ^ (e₁ - e₂ - t).toNat =
        m₂ * (m₁ <<< (e₁ - e₂ - t).toNat / m₂ : Nat) + (m₁ <<< (e₁ - e₂ - t).toNat % m₂ : Nat) := by
      have := congrArg (Nat.cast : Nat → ℚ) whole
      rw [Nat.shiftLeft_eq] at this ⊢
      exact_mod_cast this
    rw [shift] at cast
    field_simp at cast ⊢
    linarith
  rwa [parts] at fraction

end Quotient

end Round

end Decimal
end Clausal
