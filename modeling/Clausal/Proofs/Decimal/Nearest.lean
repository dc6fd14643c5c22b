import Mathlib.Tactic.IntervalCases
import Clausal.Decimal.Read
import Clausal.Proofs.Decimal.Rounding

/-!
# The nearest double of a decimal number

A double is made up of a sign, an exponent and a mantissa, and `decode` takes it apart: what is decoded to a
mantissa and an exponent is the double that has them (`eq_toFloat_of_decode`).

A decimal number is read in one of two ways.  If its digits and its power of ten are doubles, one operation
on them rounds; otherwise the digits are multiplied or divided by the power of ten with enough bits, and the
result is rounded once.  Either way the result is the double that takes the number (`ofScientific_eq`).
Numbers beyond the range of doubles are cut off before, but no double takes one of them.

Main statement: `nearest_eq`.
-/

namespace Clausal
namespace Decimal

open Float.Model Float.Model.UnpackedFloat

/-! ## The fields of a double -/

def signOf (negative : Bool) : Sign := if negative then .negative else .positive

theorem toNat_packComponents (sign : Sign) (exponent : BitVec 11) (mantissa : BitVec 52) :
    (packComponents Format.binary64 sign exponent mantissa).toNat =
      sign.toBitVec.toNat * 2 ^ 63 + exponent.toNat * 2 ^ 52 + mantissa.toNat := by
  have small : mantissa.toNat < 2 ^ 52 := mantissa.isLt
  have short : exponent.toNat < 2 ^ 11 := exponent.isLt
  unfold packComponents
  rw [BitVec.toNat_append, BitVec.toNat_append, ← Nat.shiftLeft_add_eq_or_of_lt small,
    ← Nat.shiftLeft_add_eq_or_of_lt short, Nat.shiftLeft_eq, Nat.shiftLeft_eq]
  omega

theorem ofBitVec_unpackSign (sign : Sign) (exponent : BitVec 11) (mantissa : BitVec 52) :
    Sign.ofBitVec (unpackSign (packComponents Format.binary64 sign exponent mantissa)) = sign := by
  have bit : unpackSign (packComponents Format.binary64 sign exponent mantissa) = sign.toBitVec := by
    have small : mantissa.toNat < 2 ^ 52 := mantissa.isLt
    have short : exponent.toNat < 2 ^ 11 := exponent.isLt
    have single : sign.toBitVec.toNat < 2 ^ 1 := sign.toBitVec.isLt
    apply BitVec.eq_of_toNat_eq
    have field : (unpackSign (packComponents Format.binary64 sign exponent mantissa)).toNat =
        (packComponents Format.binary64 sign exponent mantissa).toNat >>> 63 % 2 ^ 1 := by
      delta unpackSign
      simp
    rw [field, toNat_packComponents, Nat.shiftRight_eq_div_pow]
    omega
  rw [bit]
  cases sign <;> rfl

namespace Binary
namespace Canonical

variable {b : Binary} (canonical : b.Canonical)

/-- The double with a given mantissa and exponent. -/
def toFloat (negative : Bool) : Float :=
  .ofModel (.pack (.finite (signOf negative) b.mantissa b.exponent canonical.pos))

include canonical

/-- Packing writes the exponent and the mantissa without its leading bit. -/
theorem pack_eq (sign : Sign) :
    UnpackedFloat.pack Format.binary64 (.finite sign b.mantissa b.exponent canonical.pos) =
      if hiddenBit ≤ b.mantissa then
        packComponents Format.binary64 sign (BitVec.ofNat 11 (b.exponent + 1075).toNat)
          (BitVec.ofNat 52 b.mantissa)
      else
        packComponents Format.binary64 sign 0#11 (BitVec.ofNat 52 b.mantissa) := by
  have positive := canonical.pos.ne'
  have bits : b.mantissa.log2 < 53 := (Nat.log2_lt positive).mpr canonical.lt
  have lowest := canonical.lowest
  have highest := canonical.highest
  have biased : (b.exponent + (Format.binary64.exponentBias : Int) +
      (Format.binary64.mantissaBitsWithoutImplicit : Int)).toNat = (b.exponent + 1075).toNat := by
    have bias : (Format.binary64.exponentBias : Int) = 1023 := rfl
    have width : (Format.binary64.mantissaBitsWithoutImplicit : Int) = 52 := rfl
    rw [bias, width]
    congr 1
    omega
  unfold UnpackedFloat.pack
  simp only [biased]
  have bounded : ¬ 2 ^ Format.binary64.exponentBits ≤ (b.exponent + 1075).toNat + 1 := by
    have width : 2 ^ Format.binary64.exponentBits = 2048 := rfl
    omega
  rw [if_neg bounded]
  -- The leading one is there exactly if the mantissa has all its bits.
  by_cases leading : hiddenBit ≤ b.mantissa
  · have enough : 52 ≤ b.mantissa.log2 := (Nat.le_log2 positive).mpr leading
    have full : b.mantissa.log2 + 1 = Format.binary64.mantissaBits := by
      have width : Format.binary64.mantissaBits = 53 := rfl
      omega
    rw [if_pos full, if_pos leading]
  · have less : b.mantissa.log2 < 52 := (Nat.log2_lt positive).mpr (Nat.not_le.mp leading)
    have short : ¬ b.mantissa.log2 + 1 = Format.binary64.mantissaBits := by
      have width : Format.binary64.mantissaBits = 53 := rfl
      omega
    rw [if_neg short, if_neg leading]

omit canonical in
theorem finite_eq {sign sign' : Sign} {m m' : Nat} {e e' : Int} {pos : 0 < m} {pos' : 0 < m'}
    (sameSign : sign = sign') (sameMantissa : m = m') (sameExponent : e = e') :
    UnpackedFloat.finite sign m e pos = .finite sign' m' e' pos' := by
  subst sameSign sameMantissa sameExponent
  rfl

/-- A mantissa with a leading one is unpacked from the bits behind it, which stand beside an exponent
that is not the lowest. -/
theorem unpack_normal (leading : hiddenBit ≤ b.mantissa) (sign : Sign) :
    UnpackedFloat.unpack Format.binary64 (packComponents Format.binary64 sign
        (BitVec.ofNat 11 (b.exponent + 1075).toNat) (BitVec.ofNat 52 b.mantissa)) =
      .finite sign b.mantissa b.exponent canonical.pos := by
  have small := canonical.lt
  have lowest := canonical.lowest
  have highest := canonical.highest
  have bias : (Format.binary64.exponentBias : Int) = 1023 := rfl
  have width : (Format.binary64.mantissaBitsWithoutImplicit : Int) = 52 := rfl
  have biased : (b.exponent + 1075).toNat < 2047 := by omega
  have notLast : BitVec.ofNat 11 (b.exponent + 1075).toNat ≠ -1#11 := by
    intro same
    have := congrArg BitVec.toNat same
    simp at this
    omega
  have notZero : BitVec.ofNat 11 (b.exponent + 1075).toNat ≠ 0#11 := by
    intro same
    have := congrArg BitVec.toNat same
    simp at this
    omega
  have mantissa : (1#1 ++ BitVec.ofNat 52 b.mantissa).toNat = b.mantissa := by
    rw [BitVec.toNat_append, ← Nat.shiftLeft_add_eq_or_of_lt (BitVec.isLt _), Nat.shiftLeft_eq]
    unfold hiddenBit at leading small
    simp
    omega
  unfold UnpackedFloat.unpack
  rw [if_neg (by rwa [unpackExponent_packComponents]), if_neg (by rwa [unpackExponent_packComponents])]
  refine finite_eq (ofBitVec_unpackSign ..) ?_ ?_
  · rw [unpackMantissa_packComponents]
    exact mantissa
  · have field : (BitVec.ofNat 11 (b.exponent + 1075).toNat).toNat = (b.exponent + 1075).toNat := by
      rw [BitVec.toNat_ofNat, Nat.mod_eq_of_lt (by omega)]
    rw [unpackExponent_packComponents, bias, width, field]
    omega

/-- A mantissa without a leading one is unpacked as it stands, at the lowest exponent. -/
theorem unpack_subnormal (leading : ¬ hiddenBit ≤ b.mantissa) (sign : Sign) :
    UnpackedFloat.unpack Format.binary64
        (packComponents Format.binary64 sign 0#11 (BitVec.ofNat 52 b.mantissa)) =
      .finite sign b.mantissa b.exponent canonical.pos := by
  have lowest := canonical.lowest
  have bias : (Format.binary64.exponentBias : Int) = 1023 := rfl
  have width : (Format.binary64.mantissaBitsWithoutImplicit : Int) = 52 := rfl
  have lowestHere : b.exponent = -1074 := by
    by_contra other
    exact leading (canonical.normal (by omega))
  have positive := canonical.pos
  have value : (BitVec.ofNat 52 b.mantissa).toNat = b.mantissa := by
    unfold hiddenBit at leading
    simp
    omega
  have notZero : BitVec.ofNat 52 b.mantissa ≠ 0#52 := by
    intro same
    rw [same] at value
    simp at value
    omega
  unfold UnpackedFloat.unpack
  have notLast : ¬ (0#11 : BitVec 11) = -1#11 := by decide
  rw [if_neg (by rwa [unpackExponent_packComponents]), if_pos (unpackExponent_packComponents ..),
    dif_neg (by rwa [unpackMantissa_packComponents])]
  refine finite_eq (ofBitVec_unpackSign ..) ?_ ?_
  · rw [unpackMantissa_packComponents]
    exact value
  · rw [unpackExponent_packComponents, bias, width, lowestHere]
    rfl

theorem unpack_pack (sign : Sign) :
    (Float.Model.pack (.finite sign b.mantissa b.exponent canonical.pos)).unpack =
      .finite sign b.mantissa b.exponent canonical.pos := by
  have bits : (Float.Model.pack (.finite sign b.mantissa b.exponent canonical.pos)).toBits.toBitVec =
      UnpackedFloat.pack Format.binary64 (.finite sign b.mantissa b.exponent canonical.pos) := rfl
  unfold Float.Model.unpack
  rw [bits, canonical.pack_eq]
  by_cases leading : hiddenBit ≤ b.mantissa
  · rw [if_pos leading]
    exact canonical.unpack_normal leading sign
  · rw [if_neg leading]
    exact canonical.unpack_subnormal leading sign

theorem unpack_toFloat (negative : Bool) :
    (canonical.toFloat negative).toModel.unpack =
      .finite (signOf negative) b.mantissa b.exponent canonical.pos :=
  canonical.unpack_pack _

theorem toNat_toBits_toFloat (negative : Bool) :
    (canonical.toFloat negative).toBits.toNat = (if negative then 2 ^ 63 else 0) +
      if hiddenBit ≤ b.mantissa then (b.exponent + 1075).toNat * 2 ^ 52 + (b.mantissa - 2 ^ 52)
      else b.mantissa := by
  have small := canonical.lt
  have lowest := canonical.lowest
  have highest := canonical.highest
  have sign : (signOf negative).toBitVec.toNat * 2 ^ 63 = if negative then 2 ^ 63 else 0 := by
    cases negative <;> rfl
  have bits : (canonical.toFloat negative).toBits.toNat = (UnpackedFloat.pack Format.binary64
      (.finite (signOf negative) b.mantissa b.exponent canonical.pos)).toNat := rfl
  rw [bits, canonical.pack_eq]
  unfold hiddenBit at small ⊢
  split <;> rw [toNat_packComponents, sign] <;> simp <;> omega

theorem neg_toFloat : -canonical.toFloat false = canonical.toFloat true := by
  have negated : -canonical.toFloat false =
      .ofModel (.pack (canonical.toFloat false).toModel.unpack.neg) := rfl
  rw [negated, canonical.unpack_toFloat]
  rfl

end Canonical
end Binary

/-! ## Decoding -/

/-- A double is made up of its three fields. -/
theorem toNat_toBits_eq (x : Float) :
    x.toBits.toNat = (if x.toBits.toNat / 9223372036854775808 % 2 == 1 then 2 ^ 63 else 0) +
      (x.toBits.toNat / hiddenBit % 2048 * 2 ^ 52 + x.toBits.toNat % hiddenBit) := by
  have bound : x.toBits.toNat < 2 ^ 64 := x.toBits.toNat_lt
  unfold hiddenBit
  split
  next negative =>
      have := beq_iff_eq.mp negative
      omega
  next positive =>
      have := mt beq_iff_eq.mpr positive
      omega

theorem float_ext {x y : Float} (same : x.toBits.toNat = y.toBits.toNat) : x = y := by
  rcases x with ⟨⟨bits, _⟩⟩
  rcases y with ⟨⟨bits', _⟩⟩
  obtain rfl : bits = bits' := UInt64.toNat_inj.mp same
  rfl

/-- A double that is decoded to a mantissa and an exponent is the one that has them. -/
theorem eq_toFloat_of_decode {x : Float} {negative : Bool} {b : Binary}
    (decoded : decode x = .finite negative b) :
    ∃ canonical : b.Canonical, x = canonical.toFloat negative := by
  have fields := toNat_toBits_eq x
  have short : x.toBits.toNat % hiddenBit < hiddenBit := Nat.mod_lt _ (by decide)
  have exponents : x.toBits.toNat / hiddenBit % 2048 < 2048 := Nat.mod_lt _ (by decide)
  simp only [decode] at decoded
  by_cases last : x.toBits.toNat / hiddenBit % 2048 = 2047
  · rw [if_pos last] at decoded
    by_cases zero : x.toBits.toNat % hiddenBit = 0
    · rw [if_pos zero] at decoded
      cases decoded
    · rw [if_neg zero] at decoded
      cases decoded
  rw [if_neg last] at decoded
  by_cases lowest : x.toBits.toNat / hiddenBit % 2048 = 0
  · rw [if_pos lowest] at decoded
    by_cases zero : x.toBits.toNat % hiddenBit = 0
    · rw [if_pos zero] at decoded
      cases decoded
    · rw [if_neg zero] at decoded
      cases decoded
      -- At the lowest exponent, the mantissa is what the bits say.
      refine ⟨⟨Nat.pos_of_ne_zero zero, Nat.lt_trans short (by decide), Int.le_refl _,
        (by decide : (-1074 : Int) ≤ 971), nofun⟩, float_ext ?_⟩
      rw [Binary.Canonical.toNat_toBits_toFloat, if_neg (Nat.not_le.mpr short)]
      rwa [lowest, Nat.zero_mul, Nat.zero_add] at fields
  · rw [if_neg lowest] at decoded
    cases decoded
    -- At any other exponent, it has a leading one that is not among the bits.
    refine ⟨⟨Nat.add_pos_left (by decide) _, ?_, ?_, ?_, fun _ => Nat.le_add_right ..⟩, float_ext ?_⟩
    · simp only
      omega
    · simp only
      omega
    · simp only
      omega
    · rw [Binary.Canonical.toNat_toBits_toFloat, if_pos (Nat.le_add_right ..)]
      simp only [Int.sub_add_cancel, Int.toNat_natCast]
      have mantissa : hiddenBit + x.toBits.toNat % hiddenBit - 2 ^ 52 = x.toBits.toNat % hiddenBit := by
        unfold hiddenBit
        omega
      rw [mantissa]
      exact fields

/-! ## Decimal numbers -/

/-- A whole number of at most 53 bits is a double. -/
theorem unpack_toFloat_toUInt64 {n : Nat} (positive : 0 < n) (small : n < 2 ^ 53) :
    ∃ (m : Nat) (e : Int) (pos : 0 < m), n.toUInt64.toFloat.toModel.unpack = .finite .positive m e pos ∧
      hiddenBit ≤ m ∧ (m : ℚ) * 2 ^ e = n := by
  have bits : n.log2 < 53 := (Nat.log2_lt positive.ne').mpr small
  have low : 2 ^ n.log2 ≤ n := Nat.log2_self_le positive.ne'
  have high : n < 2 ^ (n.log2 + 1) := Nat.lt_log2_self
  -- The leading bit is shifted to its place.
  have leading : hiddenBit ≤ n * 2 ^ (52 - n.log2) := by
    calc hiddenBit = 2 ^ (n.log2 + (52 - n.log2)) := by rw [Nat.add_sub_cancel' (by omega)]; rfl
      _ = 2 ^ n.log2 * 2 ^ (52 - n.log2) := Nat.pow_add ..
      _ ≤ n * 2 ^ (52 - n.log2) := Nat.mul_le_mul_right _ low
  have short : n * 2 ^ (52 - n.log2) < 2 * hiddenBit := by
    calc n * 2 ^ (52 - n.log2) < 2 ^ (n.log2 + 1) * 2 ^ (52 - n.log2) :=
          Nat.mul_lt_mul_of_pos_right high (by positivity)
      _ = 2 ^ (n.log2 + 1 + (52 - n.log2)) := (Nat.pow_add ..).symm
      _ = 2 * hiddenBit := by
        have width : n.log2 + 1 + (52 - n.log2) = 53 := by omega
        rw [width]
        rfl
  have canonical : Binary.Canonical ⟨n * 2 ^ (52 - n.log2), -(52 - n.log2 : Nat)⟩ :=
    ⟨by positivity, short, by simp only; omega, by simp only; omega, fun _ => leading⟩
  have value : ((n * 2 ^ (52 - n.log2) : Nat) : ℚ) * 2 ^ (-(52 - n.log2 : Nat) : Int) = n := by
    rw [zpow_neg, zpow_natCast]
    push_cast
    field_simp
  refine ⟨_, _, canonical.pos, ?_, leading, value⟩
  have scaled : (n : ℚ) / 2 ^ (-(52 - n.log2 : Nat) : Int) = (n * 2 ^ (52 - n.log2) : Nat) := by
    rw [div_eq_iff (by positivity), value]
  have rounded := @roundWithAccuracy_eq _ (n * 2 ^ (52 - n.log2)) _ .exact _ canonical
    (Binary.takes_self value) .positive scaled (le_targetExponent (.inr leading))
  have same : n.toUInt64.toNat = n := by
    rw [Nat.toUInt64_eq, UInt64.toNat_ofNat', Nat.mod_eq_of_lt]
    omega
  have target : Format.binary64.targetExponent (totalExponent n 0) = -(52 - n.log2 : Nat) := by
    rw [targetExponent_eq]
    omega
  have whole : UnpackedFloat.ofNat Format.binary64 n =
      .finite .positive (n * 2 ^ (52 - n.log2)) (-(52 - n.log2 : Nat)) canonical.pos := by
    have order : compare (n : Int) 0 = .gt := by
      rw [compare_gt_iff_gt]
      exact_mod_cast positive
    refine Eq.trans ?_ rounded
    unfold UnpackedFloat.ofNat UnpackedFloat.ofInt UnpackedFloat.normalize
    rw [order]
    simp only [UnpackedFloat.round, target, decreaseExponent, Int.zero_sub, Int.neg_neg, Int.toNat_natCast,
      Nat.shiftLeft_eq]
  have packed : n.toUInt64.toFloat.toModel.unpack =
      (Float.Model.pack (UnpackedFloat.ofNat Format.binary64 n.toUInt64.toNat)).unpack := rfl
  rw [packed, same, whole]
  exact canonical.unpack_pack .positive

/-- Whether a decoded double is a power of ten, with all bits of its mantissa. -/
def isPowerOfTen (k : Nat) : Decoded → Bool
  | .finite false b => hiddenBit ≤ b.mantissa &&
      b.mantissa * 2 ^ b.exponent.toNat == 10 ^ k * 2 ^ (-b.exponent).toNat
  | _ => false

theorem isPowerOfTen_decode : ∀ k : Fin Float.exactlyRepresentablePowersOfTen.size,
    isPowerOfTen k (decode Float.exactlyRepresentablePowersOfTen[k]) = true := by
  decide

theorem unpack_powerOfTen {k : Nat} (small : k < Float.exactlyRepresentablePowersOfTen.size) :
    ∃ (m : Nat) (e : Int) (pos : 0 < m),
      Float.exactlyRepresentablePowersOfTen[k].toModel.unpack = .finite .positive m e pos ∧
      hiddenBit ≤ m ∧ (m : ℚ) * 2 ^ e = 10 ^ k := by
  have exact : isPowerOfTen k (decode Float.exactlyRepresentablePowersOfTen[k]) = true :=
    isPowerOfTen_decode ⟨k, small⟩
  rcases decoded : decode Float.exactlyRepresentablePowersOfTen[k] with _ | _ | _ | ⟨negative, b⟩ <;>
    rw [decoded] at exact
  · cases exact
  · cases exact
  · cases exact
  · cases negative with
    | true => cases exact
    | false =>
        obtain ⟨canonical, same⟩ := eq_toFloat_of_decode decoded
        simp only [isPowerOfTen, Bool.and_eq_true, decide_eq_true_eq, beq_iff_eq] at exact
        refine ⟨b.mantissa, b.exponent, canonical.pos, ?_, exact.1, ?_⟩
        · rw [same]
          exact canonical.unpack_toFloat false
        -- The table is compared in whole numbers, so what would be divided by is on the other side.
        · have value : (b.mantissa : ℚ) * 2 ^ b.exponent.toNat = 10 ^ k * 2 ^ (-b.exponent).toNat := by
            exact_mod_cast exact.2
          have split : (b.exponent : Int) = b.exponent.toNat - (-b.exponent).toNat := by omega
          rw [split, zpow_sub₀ two_ne_zero, zpow_natCast, zpow_natCast, ← mul_div_assoc, value]
          field_simp

/-- Powers of ten against powers of two. -/
theorem zpow_le_ten_zpow {k : Int} (nonneg : 0 ≤ k) : (2 : ℚ) ^ (3 * k) ≤ 10 ^ k := by
  rw [zpow_mul]
  exact zpow_le_zpow_left₀ nonneg (by norm_num) (by norm_num)

theorem ten_zpow_le_zpow {k : Int} (nonpos : k ≤ 0) : (10 : ℚ) ^ k ≤ 2 ^ (3 * k) := by
  have inverse := inv_anti₀ (by positivity) (zpow_le_ten_zpow (Int.neg_nonneg_of_nonpos nonpos))
  rwa [← zpow_neg, ← zpow_neg, neg_neg, mul_neg, neg_neg] at inverse

section Scientific

variable {b : Binary} (canonical : b.Canonical) {m : Nat} {e : Int}

include canonical

/-- The exponent of a number that a double takes is in the range where powers of ten are computed. -/
theorem exponent_range (positive : 0 < m) (takes : b.Takes (m * 10 ^ e)) :
    e ≤ 2048 ∧ -(2048 + m.log2) ≤ e := by
  obtain ⟨low, high⟩ := takes.range canonical
  constructor
  · by_contra large
    have power : (2 : ℚ) ^ (1024 : Int) ≤ m * 10 ^ e := by
      calc (2 : ℚ) ^ (1024 : Int) ≤ 2 ^ (3 * e) := zpow_le_zpow_right₀ one_le_two (by omega)
        _ ≤ 10 ^ e := zpow_le_ten_zpow (by omega)
        _ ≤ m * 10 ^ e := le_mul_of_one_le_left (by positivity) (by exact_mod_cast positive)
    linarith
  · by_contra small
    have short : (m : ℚ) < 2 ^ (m.log2 + 1) := by exact_mod_cast Nat.lt_log2_self
    have less : m * (10 : ℚ) ^ e < 2 ^ (-1075 : Int) := by
      calc m * (10 : ℚ) ^ e < 2 ^ (m.log2 + 1) * 10 ^ e := by gcongr
        _ ≤ 2 ^ (m.log2 + 1) * 2 ^ (3 * e) := by gcongr; exact ten_zpow_le_zpow (by omega)
        _ = 2 ^ ((m.log2 + 1 : Nat) + 3 * e) := by rw [zpow_add₀ two_ne_zero, zpow_natCast]
        _ ≤ 2 ^ (-1075 : Int) := zpow_le_zpow_right₀ one_le_two (by omega)
    linarith

theorem unpacked_ofScientific (positive : 0 < m) (takes : b.Takes (m * 10 ^ e)) :
    UnpackedFloat.ofScientific Format.binary64 m e =
      .finite .positive b.mantissa b.exponent canonical.pos := by
  obtain ⟨high, low⟩ := exponent_range canonical positive takes
  have width : (2 : Int) ^ Format.binary64.exponentBits = 2048 := rfl
  unfold UnpackedFloat.ofScientific
  rw [dif_neg positive.ne', width, if_neg (by omega), if_neg (by omega)]
  by_cases nonneg : 0 ≤ e
  · rw [if_pos nonneg]
    have bits : Format.binary64.mantissaBits = 53 := rfl
    -- The number is shifted before it is multiplied, so that there are bits enough to round.
    have enough : hiddenBit ≤ m <<< Format.binary64.mantissaBits * 10 ^ e.toNat := by
      rw [bits, Nat.shiftLeft_eq]
      calc hiddenBit = 1 * hiddenBit * 1 := rfl
        _ ≤ m * 2 ^ 53 * 10 ^ e.toNat := by
          gcongr
          · exact positive
          · decide
          · exact Nat.one_le_pow _ _ (by decide)
    refine mul_eq _ _ canonical enough ?_
    have value : ((m <<< Format.binary64.mantissaBits : Nat) : ℚ) *
        2 ^ (-(Format.binary64.mantissaBits : Int)) * ((10 ^ e.toNat : Nat) * 2 ^ (0 : Int)) =
          m * 10 ^ e := by
      have power : (10 : ℚ) ^ e = 10 ^ e.toNat := by
        rw [← zpow_natCast, Int.toNat_of_nonneg nonneg]
      have unit : (2 : ℚ) ^ 53 ≠ 0 := by positivity
      rw [bits, Nat.shiftLeft_eq, power, zpow_neg, zpow_natCast, zpow_zero, Nat.cast_mul, Nat.cast_pow,
        Nat.cast_pow, Nat.cast_ofNat, Nat.cast_ofNat, mul_one, mul_inv_cancel_right₀ unit]
    rwa [value]
  · rw [if_neg nonneg]
    refine div_eq _ _ canonical ?_
    have value : (m : ℚ) * 2 ^ (0 : Int) / ((10 ^ (-e).toNat : Nat) * 2 ^ (0 : Int)) = m * 10 ^ e := by
      have power : (10 : ℚ) ^ e = (10 ^ (-e).toNat)⁻¹ := by
        rw [← zpow_natCast, Int.toNat_of_nonneg (by omega), zpow_neg, inv_inv]
      rw [power, zpow_zero]
      push_cast
      field_simp
    rwa [value]

end Scientific

/-- A decimal number is read as the double that takes it. -/
theorem ofScientific_eq {b : Binary} (canonical : b.Canonical) {m k : Nat} (positive : 0 < m)
    (negative : Bool) (takes : b.Takes (m * 10 ^ (if negative then -(k : Int) else k))) :
    Float.ofScientific m negative k = canonical.toFloat false := by
  unfold Float.ofScientific
  split
  next fast =>
      -- The mantissa and the power of ten are doubles, so there is one operation that rounds.
      obtain ⟨m₁, e₁, pos₁, first, leading, value₁⟩ := unpack_toFloat_toUInt64 positive fast.1
      obtain ⟨m₂, e₂, pos₂, second, bits, value₂⟩ := @unpack_powerOfTen k (Nat.lt_succ_of_le fast.2)
      cases negative with
      | true =>
          have quotient : b.Takes (m₁ * 2 ^ e₁ / (m₂ * 2 ^ e₂)) := by
            rw [value₁, value₂, div_eq_mul_inv, ← zpow_natCast, ← zpow_neg]
            exact takes
          have divided := div_eq pos₁ pos₂ canonical quotient
          rw [← first, ← second] at divided
          exact congrArg (fun f => Float.ofModel (.pack f)) divided
      | false =>
          have product : b.Takes (m₁ * 2 ^ e₁ * (m₂ * 2 ^ e₂)) := by
            rw [value₁, value₂, ← zpow_natCast]
            exact takes
          have enough : hiddenBit ≤ m₁ * m₂ := Nat.le_trans leading (Nat.le_mul_of_pos_right _ pos₂)
          have multiplied := mul_eq pos₁ pos₂ canonical enough product
          rw [← first, ← second] at multiplied
          exact congrArg (fun f => Float.ofModel (.pack f)) multiplied
  next slow =>
      have exponent : (if negative then Int.negOfNat k else Int.ofNat k) =
          if negative then -(k : Int) else k := by
        cases negative
        · rfl
        · exact Int.negOfNat_eq
      rw [exponent]
      exact congrArg (fun f => Float.ofModel (.pack f)) (unpacked_ofScientific canonical positive takes)

/-- A number lies between the powers of ten that its digits give. -/
theorem pow_length_toDigits {n : Nat} (positive : 0 < n) :
    10 ^ ((Nat.toDigits 10 n).length - 1) ≤ n ∧ n < 10 ^ (Nat.toDigits 10 n).length := by
  have some := @Nat.length_toDigits_pos 10 n
  refine ⟨?_, (Nat.length_toDigits_le_iff (by decide) some).mp (Nat.le_refl _)⟩
  by_cases single : (Nat.toDigits 10 n).length - 1 = 0
  · rw [single]
    exact positive
  · by_contra less
    have shorter := (Nat.length_toDigits_le_iff (by decide) (Nat.pos_of_ne_zero single)).mpr
      (Nat.not_le.mp less)
    omega

/-- The nearest double of a decimal number is the one that takes it. -/
theorem nearest_eq {b : Binary} (canonical : b.Canonical) {m : Nat} {e : Int} (positive : 0 < m)
    (takes : b.Takes (m * 10 ^ e)) : nearest m e = canonical.toFloat false := by
  obtain ⟨low, high⟩ := takes.range canonical
  obtain ⟨atLeast, less⟩ := pow_length_toDigits positive
  have digits : (toString m).length = (Nat.toDigits 10 m).length := by
    rw [Nat.toString_eq_ofList_toDigits, String.length_ofList]
  generalize (Nat.toDigits 10 m).length = n at digits atLeast less
  -- No double is so small or so large that it would be cut off.
  have lower : -400 ≤ (n : Int) + e := by
    by_contra small
    have cut : m * (10 : ℚ) ^ e < 2 ^ (-1075 : Int) := by
      calc m * (10 : ℚ) ^ e < 10 ^ n * 10 ^ e := by gcongr; exact_mod_cast less
        _ = 10 ^ (n + e) := by rw [zpow_add₀ (by norm_num), zpow_natCast]
        _ ≤ 2 ^ (3 * (n + e)) := ten_zpow_le_zpow (by omega)
        _ ≤ 2 ^ (-1075 : Int) := zpow_le_zpow_right₀ one_le_two (by omega)
    linarith
  have upper : (n : Int) + e ≤ 400 := by
    by_contra large
    have cut : (2 : ℚ) ^ (1024 : Int) ≤ m * 10 ^ e := by
      calc (2 : ℚ) ^ (1024 : Int) ≤ 2 ^ (3 * ((n - 1 : Nat) + e)) :=
            zpow_le_zpow_right₀ one_le_two (by omega)
        _ ≤ 10 ^ ((n - 1 : Nat) + e) := zpow_le_ten_zpow (by omega)
        _ = 10 ^ (n - 1) * 10 ^ e := by rw [zpow_add₀ (by norm_num), zpow_natCast]
        _ ≤ m * 10 ^ e := by gcongr; exact_mod_cast atLeast
    linarith
  have inside : (decide (m = 0) || decide ((n : Int) + e < -400)) = false := by
    simp only [Bool.or_eq_false_iff, decide_eq_false_iff_not]
    omega
  unfold nearest
  simp only [digits, inside, Bool.false_eq_true, if_false]
  rw [if_neg (by omega)]
  split
  next negative =>
      refine ofScientific_eq canonical positive true ?_
      have exponent : (if true then -(e.natAbs : Int) else e.natAbs) = e := by
        rw [if_pos rfl]
        omega
      rwa [exponent]
  next nonneg =>
      refine ofScientific_eq canonical positive false ?_
      have exponent : (if false then -(e.natAbs : Int) else e.natAbs) = e := by
        rw [if_neg Bool.false_ne_true]
        omega
      rwa [exponent]

end Decimal
end Clausal
