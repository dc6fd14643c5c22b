/-!
# Shortest decimal form of a double

A finite double is `mantissa * 2 ^ exponent`.  The reals that round to it form an interval around
it, whose ends belong to it when the mantissa is even.  `shortest` gives the decimal with the
fewest digits in that interval: for one digit, two digits and so on it tries the two neighbours of
the value on the decimal grid of that many digits, and of two hits it takes the nearer one.  Which
one it takes if both are equally near is left to the form of the output.
-/

namespace Clausal
namespace Decimal

/-- A finite double that is not zero, without its sign: `mantissa * 2 ^ exponent`. -/
structure Binary where
  mantissa : Nat
  exponent : Int
  deriving Repr, Inhabited

/-- The kinds of doubles. -/
inductive Decoded where
  | nan
  | infinite (negative : Bool)
  | zero (negative : Bool)
  | finite (negative : Bool) (magnitude : Binary)
  deriving Repr, Inhabited

/-- The weight `2 ^ 52` of the first bit of a mantissa, which the fraction field leaves out. -/
def hiddenBit : Nat := 4503599627370496

/-- Reads the sign, exponent and fraction fields of a double. -/
def decode (x : Float) : Decoded :=
  let bits := x.toBits.toNat
  let negative := bits / 9223372036854775808 % 2 == 1
  let exponent : Nat := bits / hiddenBit % 2048
  let fraction : Nat := bits % hiddenBit
  if exponent = 2047 then
    if fraction = 0 then .infinite negative else .nan
  else if exponent = 0 then
    if fraction = 0 then .zero negative else .finite negative ⟨fraction, -1074⟩
  else
    .finite negative ⟨hiddenBit + fraction, (exponent : Int) - 1075⟩

/-- A decimal number `digits * 10 ^ exponent`. -/
structure Scientific where
  digits : Nat
  exponent : Int
  deriving DecidableEq, Repr, Inhabited

/-- Four times a double and the ends of its interval, over a common denominator: the numbers are
`value / unit`, `lower / unit` and `upper / unit`. -/
structure Interval where
  lower : Nat
  value : Nat
  upper : Nat
  unit : Nat
  closed : Bool
  deriving Repr, Inhabited

/-- The interval of reals that round to a double.  Below a power of two the neighbours are twice
as close as above it. -/
def Interval.ofBinary (b : Binary) : Interval :=
  let below := if b.mantissa = hiddenBit && -1074 < b.exponent then 1 else 2
  let scale := if 0 ≤ b.exponent then Nat.pow 2 b.exponent.natAbs else 1
  let unit := if 0 ≤ b.exponent then 4 else 4 * Nat.pow 2 b.exponent.natAbs
  { lower := (4 * b.mantissa - below) * scale
    value := 4 * b.mantissa * scale
    upper := (4 * b.mantissa + 2) * scale
    unit
    closed := b.mantissa % 2 == 0 }

/-- The interval in units of `10 ^ exponent`. -/
def Interval.scaled (i : Interval) (exponent : Int) : Interval :=
  let power := Nat.pow 10 exponent.natAbs
  if 0 ≤ exponent then
    { i with unit := i.unit * power }
  else
    { i with lower := i.lower * power, value := i.value * power, upper := i.upper * power }

/-- Whether the integer `n` lies in the interval. -/
def Interval.holds (i : Interval) (n : Nat) : Bool :=
  let scaled := n * i.unit
  if i.closed then i.lower ≤ scaled && scaled ≤ i.upper
  else i.lower < scaled && scaled < i.upper

/-- Which of two equally near integers is taken. -/
inductive Tie where
  | up
  | even
  deriving DecidableEq, Repr, Inhabited

def Tie.choose : Tie → (floor : Nat) → Nat
  | up, floor => floor + 1
  | even, floor => if floor % 2 = 0 then floor else floor + 1

/-- The neighbour of the value among the integers that lies in the interval, the nearer of two. -/
def Interval.integer? (i : Interval) (tie : Tie) : Option Nat :=
  let floor := i.value / i.unit
  let ceiling := floor + 1
  match i.holds floor, i.holds ceiling with
  | true, true =>
      match compare (i.value - floor * i.unit) (ceiling * i.unit - i.value) with
      | .lt => some floor
      | .eq => some (tie.choose floor)
      | .gt => some ceiling
  | true, false => some floor
  | false, true => some ceiling
  | false, false => none

/-- Number of decimal digits. -/
def digitCount (n : Nat) : Nat := (Nat.toDigits 10 n).length

/-- The exponent of the first digit: the largest `e` with `10 ^ e` at most the value.  A value
below one is multiplied by ten until it reaches one, at most `limit` times. -/
def leadingExponent (value unit : Nat) : (limit : Nat) → Int
  | 0 => 0
  | limit + 1 =>
      if unit ≤ value then (digitCount (value / unit) : Int) - 1
      else leadingExponent (value * 10) unit limit - 1

/-- Tries grids of more and more digits, the first digit standing at `10 ^ lead`. -/
def search (i : Interval) (tie : Tie) (lead : Int) : (tries : Nat) → (digits : Nat) → Scientific
  | 0, digits => ⟨i.value / i.unit, lead - digits⟩
  | tries + 1, digits =>
      let exponent := lead - digits
      match (i.scaled exponent).integer? tie with
      | some n => ⟨n, exponent⟩
      | none => search i tie lead tries (digits + 1)

/-- Removes the zeros at the end of the digits, at most `limit` of them. -/
def Scientific.trim : (limit : Nat) → Scientific → Scientific
  | 0, s => s
  | limit + 1, s =>
      if s.digits % 10 = 0 && s.digits ≠ 0 then trim limit ⟨s.digits / 10, s.exponent + 1⟩ else s

/-- The decimal with the fewest digits that reads back as the given double. -/
def shortest (tie : Tie) (b : Binary) : Scientific :=
  let i := Interval.ofBinary b
  (search i tie (leadingExponent i.value i.unit 400) 17 0).trim 20

end Decimal
end Clausal
