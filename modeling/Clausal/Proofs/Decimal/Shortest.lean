import Clausal.Proofs.Decimal.Nearest

/-!
# The shortest digits of a double

The decimal that `shortest` gives rounds to the double it was made from.  The search tries grids of more and
more digits, and takes a point of a grid only if it lies in the interval of the double
(`InUnits.takes_of_holds`), so what is to be shown is that it finds one: seventeen digits are enough
(`InUnits.integer?_isSome`), because two neighbours on a grid of seventeen digits are closer than the ends
of the interval.

Main statement: `takes_shortest`.
-/

namespace Clausal
namespace Decimal

/-! ## Numbers over a common denominator -/

/-- The number `n` over the denominator `unit` is `q` in units of `g`. -/
def Measures (g : ℚ) (unit n : Nat) (q : ℚ) : Prop := n * g = q * unit

namespace Measures

variable {g q : ℚ} {unit n : Nat}

/-- Comparing with a whole number of units. -/
theorem lt_iff (h : Measures g unit n q) (positive : 0 < g) (unit_pos : 0 < unit) (k : Nat) :
    n < k * unit ↔ q < k * g := by
  have denominator : (0 : ℚ) < unit := by exact_mod_cast unit_pos
  unfold Measures at h
  rw [← Nat.cast_lt (α := ℚ), ← mul_lt_mul_iff_left₀ positive, h, Nat.cast_mul, mul_right_comm,
    mul_lt_mul_iff_left₀ denominator]

theorem gt_iff (h : Measures g unit n q) (positive : 0 < g) (unit_pos : 0 < unit) (k : Nat) :
    k * unit < n ↔ k * g < q := by
  have denominator : (0 : ℚ) < unit := by exact_mod_cast unit_pos
  unfold Measures at h
  rw [← Nat.cast_lt (α := ℚ), ← mul_lt_mul_iff_left₀ positive, h, Nat.cast_mul, mul_right_comm,
    mul_lt_mul_iff_left₀ denominator]

theorem le_iff (h : Measures g unit n q) (positive : 0 < g) (unit_pos : 0 < unit) (k : Nat) :
    n ≤ k * unit ↔ q ≤ k * g := by
  rw [← Nat.not_lt, h.gt_iff positive unit_pos, not_lt]

theorem ge_iff (h : Measures g unit n q) (positive : 0 < g) (unit_pos : 0 < unit) (k : Nat) :
    k * unit ≤ n ↔ k * g ≤ q := by
  rw [← Nat.not_lt, h.lt_iff positive unit_pos, not_lt]

/-- Larger units make the denominator larger. -/
theorem coarser (h : Measures 1 unit n q) (k : Nat) : Measures (10 ^ k) (unit * 10 ^ k) n q := by
  unfold Measures at h ⊢
  rw [mul_one] at h
  rw [h]
  push_cast
  ring

/-- Smaller units make the number larger. -/
theorem finer (h : Measures 1 unit n q) (k : Nat) : Measures (10 ^ k)⁻¹ unit (n * 10 ^ k) q := by
  unfold Measures at h ⊢
  push_cast
  rw [mul_inv_cancel_right₀ (by positivity), ← h, mul_one]

end Measures

/-! ## The interval of a double -/

/-- The interval of a double in units of `g`. -/
structure InUnits (i : Interval) (b : Binary) (g : ℚ) : Prop where
  unit_pos : 0 < i.unit
  lower : Measures g i.unit i.lower ((b.mantissa - b.below) * 2 ^ b.exponent)
  value : Measures g i.unit i.value (b.mantissa * 2 ^ b.exponent)
  upper : Measures g i.unit i.upper ((b.mantissa + 1 / 2) * 2 ^ b.exponent)
  closed : i.closed = (b.mantissa % 2 == 0)

/-- Quarters of the last bit over their common denominator. -/
theorem measures_quarters (n : Nat) (e : Int) :
    Measures 1 (if 0 ≤ e then 4 else 4 * Nat.pow 2 e.natAbs)
      (n * if 0 ≤ e then Nat.pow 2 e.natAbs else 1) (n / 4 * 2 ^ e) := by
  unfold Measures
  simp only [Nat.pow_eq]
  -- The power of two stands in the numerator or in the denominator.
  by_cases nonneg : 0 ≤ e
  · have power : (2 : ℚ) ^ e = 2 ^ e.natAbs := by
      rw [← zpow_natCast]
      congr 1
      omega
    rw [if_pos nonneg, if_pos nonneg, power]
    push_cast
    ring
  · have power : (2 : ℚ) ^ e = (2 ^ e.natAbs)⁻¹ := by
      rw [← zpow_natCast, ← zpow_neg]
      congr 1
      omega
    rw [if_neg nonneg, if_neg nonneg, power]
    push_cast
    field_simp

theorem inUnits_ofBinary {b : Binary} (canonical : b.Canonical) : InUnits (.ofBinary b) b 1 := by
  have positive := canonical.pos
  -- At a power of two the doubles below lie closer together.
  have below : ((4 * b.mantissa - if b.mantissa = hiddenBit && -1074 < b.exponent then 1 else 2 : Nat) : ℚ)
      / 4 = b.mantissa - b.below := by
    rw [Nat.cast_sub (by split <;> omega), Binary.below]
    by_cases edge : b.mantissa = hiddenBit ∧ -1074 < b.exponent
    · rw [if_pos edge, if_pos (by simpa using edge)]
      push_cast
      ring
    · rw [if_neg edge, if_neg (by simpa using edge)]
      push_cast
      ring
  have value : ((4 * b.mantissa : Nat) : ℚ) / 4 = b.mantissa := by
    push_cast
    ring
  have upper : ((4 * b.mantissa + 2 : Nat) : ℚ) / 4 = b.mantissa + 1 / 2 := by
    push_cast
    ring
  refine ⟨?_, ?_, ?_, ?_, rfl⟩
  · simp only [Interval.ofBinary, Nat.pow_eq]
    split <;> positivity
  · rw [← below]
    exact measures_quarters _ _
  · rw [← value]
    exact measures_quarters _ _
  · rw [← upper]
    exact measures_quarters _ _

namespace InUnits

variable {i : Interval} {b : Binary} {g : ℚ} {tie : Tie} {n : Nat}

theorem scaled (h : InUnits i b 1) (k : Int) : InUnits (i.scaled k) b (10 ^ k) := by
  by_cases nonneg : 0 ≤ k
  · have power : (10 : ℚ) ^ k = 10 ^ k.natAbs := by
      rw [← zpow_natCast]
      congr 1
      omega
    rw [Interval.scaled, if_pos nonneg, power]
    exact ⟨Nat.mul_pos h.unit_pos (Nat.pow_pos (by decide)), h.lower.coarser _, h.value.coarser _,
      h.upper.coarser _, h.closed⟩
  · have power : (10 : ℚ) ^ k = (10 ^ k.natAbs)⁻¹ := by
      rw [← zpow_natCast, ← zpow_neg]
      congr 1
      omega
    rw [Interval.scaled, if_neg nonneg, power]
    exact ⟨h.unit_pos, h.lower.finer _, h.value.finer _, h.upper.finer _, h.closed⟩

/-- Points of the interval round to the double. -/
theorem takes_of_holds (h : InUnits i b g) (positive : 0 < g) (holds : i.holds n = true) :
    b.Takes (n * g) := by
  have unit : (0 : ℚ) < 2 ^ b.exponent := by positivity
  unfold Interval.holds at holds
  unfold Binary.Takes
  rw [h.closed] at holds
  rw [lt_div_iff₀ unit, div_lt_iff₀ unit, le_div_iff₀ unit, div_le_iff₀ unit]
  split at holds
  next even =>
      simp only [Bool.and_eq_true, decide_eq_true_eq] at holds
      rw [h.lower.le_iff positive h.unit_pos, h.upper.ge_iff positive h.unit_pos] at holds
      exact .inr ⟨beq_iff_eq.mp even, holds⟩
  next =>
      simp only [Bool.and_eq_true, decide_eq_true_eq] at holds
      rw [h.lower.lt_iff positive h.unit_pos, h.upper.gt_iff positive h.unit_pos] at holds
      exact .inl holds

/-- What lies strictly between the ends is in the interval. -/
theorem holds_of_between (h : InUnits i b g) (positive : 0 < g)
    (lower : (b.mantissa - b.below) * 2 ^ b.exponent < n * g)
    (upper : n * g < (b.mantissa + 1 / 2) * 2 ^ b.exponent) : i.holds n = true := by
  have low := (h.lower.lt_iff positive h.unit_pos n).mpr lower
  have high := (h.upper.gt_iff positive h.unit_pos n).mpr upper
  unfold Interval.holds
  split <;> simp only [Bool.and_eq_true, decide_eq_true_eq] <;> omega

/-- A point is only missed if neither neighbour of the value is in the interval. -/
theorem not_holds_of_integer? (missed : i.integer? tie = none) :
    i.holds (i.value / i.unit) = false ∧ i.holds (i.value / i.unit + 1) = false := by
  unfold Interval.integer? at missed
  simp only at missed
  split at missed
  · split at missed <;> cases missed
  · cases missed
  · cases missed
  next lower upper => exact ⟨lower, upper⟩

/-- Where the points of a grid are closer than the ends of the interval, one of them is in it. -/
theorem integer?_isSome (h : InUnits i b g) (positive : 0 < g)
    (close : g < (b.below + 1 / 2) * 2 ^ b.exponent) : (i.integer? tie).isSome = true := by
  have unit : (0 : ℚ) < 2 ^ b.exponent := by positivity
  have below := b.below_pos
  -- The value lies between two neighbours on the grid.
  have floor : ((i.value / i.unit : Nat) : ℚ) * g ≤ b.mantissa * 2 ^ b.exponent :=
    (h.value.ge_iff positive h.unit_pos _).mp (Nat.div_mul_le_self ..)
  have ceiling : b.mantissa * 2 ^ b.exponent < ((i.value / i.unit + 1 : Nat) : ℚ) * g :=
    (h.value.lt_iff positive h.unit_pos _).mp (Nat.lt_mul_of_div_lt (Nat.lt_succ_self _) h.unit_pos)
  have next : ((i.value / i.unit + 1 : Nat) : ℚ) * g = (i.value / i.unit : Nat) * g + g := by
    push_cast
    ring
  have either : i.holds (i.value / i.unit) = true ∨ i.holds (i.value / i.unit + 1) = true := by
    by_cases near : (b.mantissa - b.below) * 2 ^ b.exponent < ((i.value / i.unit : Nat) : ℚ) * g
    · exact .inl (h.holds_of_between positive near (by nlinarith))
    · exact .inr (h.holds_of_between positive (by nlinarith) (by rw [next]; nlinarith))
  refine Option.isSome_iff_ne_none.mpr fun missed => ?_
  obtain ⟨lower, upper⟩ := not_holds_of_integer? missed
  rw [lower, upper] at either
  simp at either

/-- Only points of the interval are taken. -/
theorem holds_of_integer? (found : i.integer? tie = some n) : i.holds n = true := by
  unfold Interval.integer? at found
  simp only at found
  split at found
  next lower upper =>
      split at found
      · cases found
        exact lower
      · cases found
        cases tie with
        | up => exact upper
        | even =>
            rw [Tie.choose]
            split
            · exact lower
            · exact upper
      · cases found
        exact upper
  next lower _ =>
      cases found
      exact lower
  next _ upper =>
      cases found
      exact upper
  next => cases found

end InUnits

/-! ## The search -/

/-- The search gives a point that was taken, if the last grid has one. -/
theorem search_spec {i : Interval} {tie : Tie} {lead : Int} {P : Scientific → Prop}
    (taken : ∀ n k, (i.scaled k).integer? tie = some n → P ⟨n, k⟩) (tries digits : Nat)
    (last : ((i.scaled (lead - (digits + tries : Nat))).integer? tie).isSome = true) :
    P (search i tie lead (tries + 1) digits) := by
  induction tries generalizing digits with
  | zero =>
      rw [Nat.add_zero] at last
      obtain ⟨n, found⟩ := Option.isSome_iff_exists.mp last
      rw [search, found]
      exact taken n _ found
  | succ tries ih =>
      rw [search]
      cases found : (i.scaled (lead - digits)).integer? tie with
      | some n => exact taken n _ found
      | none =>
          refine ih (digits + 1) ?_
          have shift : digits + 1 + tries = digits + (tries + 1) := by omega
          rwa [shift]

/-- The first digit stands at or below the value. -/
theorem ten_zpow_leadingExponent {value unit n limit : Nat} (unit_pos : 0 < unit)
    (enough : unit ≤ value * 10 ^ n) (within : n < limit) :
    (10 : ℚ) ^ leadingExponent value unit limit * unit ≤ value := by
  induction limit generalizing value n with
  | zero => exact absurd within (Nat.not_lt_zero _)
  | succ limit ih =>
      rw [leadingExponent]
      split
      next large =>
          have positive : 0 < value / unit := Nat.div_pos large unit_pos
          have digits := (pow_length_toDigits positive).1
          have count : (digitCount (value / unit) : Int) - 1 =
              ((Nat.toDigits 10 (value / unit)).length - 1 : Nat) := by
            have some := @Nat.length_toDigits_pos 10 (value / unit)
            rw [digitCount]
            omega
          rw [count, zpow_natCast]
          have whole := Nat.le_trans (Nat.mul_le_mul_right unit digits) (Nat.div_mul_le_self value unit)
          exact_mod_cast whole
      next small =>
          -- One more factor of ten, and one digit further.
          obtain ⟨n, rfl⟩ : ∃ k, n = k + 1 := by
            refine ⟨n - 1, ?_⟩
            have nonzero : n ≠ 0 := by
              rintro rfl
              rw [Nat.pow_zero, Nat.mul_one] at enough
              exact small enough
            omega
          have further : unit ≤ value * 10 * 10 ^ n := by
            rwa [Nat.mul_assoc, ← Nat.pow_succ']
          have rest := ih further (Nat.lt_of_succ_lt_succ within)
          rw [zpow_sub_one₀ (by norm_num)]
          push_cast at rest
          linarith

/-! ## The shortest decimal -/

/-- The number that a decimal stands for. -/
def Scientific.toRat (s : Scientific) : ℚ := s.digits * 10 ^ s.exponent

/-- Zeros at the end do not change the number. -/
theorem Scientific.toRat_trim (limit : Nat) (s : Scientific) : (s.trim limit).toRat = s.toRat := by
  induction limit generalizing s with
  | zero => rfl
  | succ limit ih =>
      rw [trim]
      split
      next zero =>
          have divides : s.digits % 10 = 0 := by simp_all
          have whole : s.digits = s.digits / 10 * 10 := by omega
          rw [ih, toRat, toRat, zpow_add_one₀ (by norm_num)]
          conv_rhs => rw [whole]
          push_cast
          ring
      next => rfl

section Shortest

variable {b : Binary} (canonical : b.Canonical)

include canonical

theorem ten_zpow_lead :
    (10 : ℚ) ^ leadingExponent (Interval.ofBinary b).value (Interval.ofBinary b).unit 400 ≤
      b.mantissa * 2 ^ b.exponent := by
  obtain ⟨unit_pos, -, value, -, -⟩ := inUnits_ofBinary canonical
  rw [Measures, mul_one] at value
  have unit : (0 : ℚ) < (Interval.ofBinary b).unit := by exact_mod_cast unit_pos
  have whole : (1 : ℚ) ≤ b.mantissa := by exact_mod_cast canonical.pos
  -- The least double has its first digit within four hundred places behind the point.
  have large : (1 : ℚ) ≤ b.mantissa * 2 ^ b.exponent * 10 ^ 399 := by
    calc (1 : ℚ) = 1 * 2 ^ (-1074 : Int) * 2 ^ (1074 : Int) := by
          rw [one_mul, ← zpow_add₀ two_ne_zero]
          rfl
      _ ≤ 1 * 2 ^ (-1074 : Int) * 2 ^ (3 * 399 : Int) := by
          gcongr
          · norm_num
          · decide
      _ ≤ b.mantissa * 2 ^ b.exponent * 10 ^ (399 : Int) := by
          gcongr
          · norm_num
          · exact canonical.lowest
          · exact zpow_le_ten_zpow (by decide)
      _ = b.mantissa * 2 ^ b.exponent * 10 ^ 399 := by rw [← zpow_natCast]; rfl
  have enough : (Interval.ofBinary b).unit ≤ (Interval.ofBinary b).value * 10 ^ 399 := by
    have scaled : ((Interval.ofBinary b).unit : ℚ) ≤ (Interval.ofBinary b).value * 10 ^ 399 := by
      rw [value]
      calc ((Interval.ofBinary b).unit : ℚ) = 1 * (Interval.ofBinary b).unit := (one_mul _).symm
        _ ≤ b.mantissa * 2 ^ b.exponent * 10 ^ 399 * (Interval.ofBinary b).unit := by gcongr
        _ = b.mantissa * 2 ^ b.exponent * (Interval.ofBinary b).unit * 10 ^ 399 := mul_right_comm ..
    exact_mod_cast scaled
  have first := ten_zpow_leadingExponent unit_pos enough (by decide : 399 < 400)
  rw [value] at first
  exact le_of_mul_le_mul_right first unit

/-- Seventeen digits tell a double from its neighbours. -/
theorem grid_close {lead : Int} (first : (10 : ℚ) ^ lead ≤ b.mantissa * 2 ^ b.exponent) :
    (10 : ℚ) ^ (lead - 16) < (b.below + 1 / 2) * 2 ^ b.exponent := by
  have mantissa : (b.mantissa : ℚ) < 2 ^ 53 := by exact_mod_cast canonical.lt
  -- Sixteen places behind the first, one digit is narrower than the interval, as `2 ^ 53 < 10 ^ 16`.
  have narrow : (b.mantissa : ℚ) / 10 ^ 16 < b.below + 1 / 2 := by
    unfold Binary.below
    split
    next edge =>
        have leading : (b.mantissa : ℚ) = 2 ^ 52 := by exact_mod_cast edge.1
        rw [leading]
        norm_num
    next =>
        rw [div_lt_iff₀ (by norm_num)]
        linarith
  calc (10 : ℚ) ^ (lead - 16) = 10 ^ lead / 10 ^ 16 := by
        rw [zpow_sub₀ (by norm_num)]
        rfl
    _ ≤ b.mantissa * 2 ^ b.exponent / 10 ^ 16 := by gcongr
    _ = b.mantissa / 10 ^ 16 * 2 ^ b.exponent := by ring
    _ < (b.below + 1 / 2) * 2 ^ b.exponent := by gcongr

/-- The shortest decimal of a double rounds to the double. -/
theorem takes_shortest (tie : Tie) : b.Takes (shortest tie b).toRat := by
  have units := inUnits_ofBinary canonical
  unfold shortest
  simp only [Scientific.toRat_trim]
  refine @search_spec _ _ _ (fun s => b.Takes s.toRat) (fun n k found => ?_) 16 0 ?_
  · exact (units.scaled k).takes_of_holds (by positivity) (InUnits.holds_of_integer? found)
  · exact (units.scaled _).integer?_isSome (by positivity) (grid_close canonical (ten_zpow_lead canonical))

end Shortest

end Decimal
end Clausal
