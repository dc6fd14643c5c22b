/-!
# Reading decimal numbers

`natOfDigits` is the value of a row of digits.  `readFloat?` reads the usual notation of a
floating point number, with an optional sign, point and exponent, and the words for infinity and
"not a number"; the result is the nearest double.
-/

namespace Clausal
namespace Decimal

def isDigit (c : Char) : Bool := '0' ≤ c && c ≤ '9'

def digitValue (c : Char) : Nat := c.toNat - '0'.toNat

/-- The value of a row of decimal digits. -/
def natOfDigits (digits : List Char) : Nat :=
  digits.foldl (fun n c => n * 10 + digitValue c) 0

/-- A further digit multiplies by ten and adds its value. -/
theorem natOfDigits_concat (digits : List Char) (c : Char) :
    natOfDigits (digits ++ [c]) = natOfDigits digits * 10 + digitValue c := by
  simp [natOfDigits]

/-- The digits of a number have its value. -/
theorem natOfDigits_toDigits (n : Nat) : natOfDigits (Nat.toDigits 10 n) = n := by
  have known : Nat.ofDigitChars 10 (Nat.toDigits 10 n) 0 = n := Nat.ofDigitChars_ten_toDigits
  rw [Nat.ofDigitChars_eq_foldl] at known
  simpa [natOfDigits, digitValue, Nat.mul_comm] using known

/-- The value of a row of at least one decimal digit and nothing else. -/
def readNat? (digits : List Char) : Option Nat :=
  if !digits.isEmpty && digits.all isDigit then some (natOfDigits digits) else none

/-- Whether a text is a row of decimal digits without a superfluous zero in front. -/
def isPlain (digits : List Char) : Bool :=
  !digits.isEmpty && digits.all isDigit && (digits.length == 1 || digits.head? != some '0')

/-- A sign, read off the front; a text without one is positive. -/
def readSign : List Char → Bool × List Char
  | '-' :: cs => (true, cs)
  | '+' :: cs => (false, cs)
  | cs => (false, cs)

/-- The exponent that ends a number; a number may lack one. -/
def readExponent? : List Char → Option Int
  | [] => some 0
  | e :: cs =>
      if e == 'e' || e == 'E' then
        let (negative, digits) := readSign cs
        (readNat? digits).map fun n => if negative then -(n : Int) else n
      else
        none

/-- The double nearest to `mantissa * 10 ^ exponent`.  Numbers beyond the range of doubles are cut
off before any power is computed. -/
def nearest (mantissa : Nat) (exponent : Int) : Float :=
  let size : Int := (toString mantissa).length + exponent
  if mantissa = 0 || size < -400 then 0.0
  else if 400 < size then 1.0 / 0.0
  else if exponent < 0 then Float.ofScientific mantissa true exponent.natAbs
  else Float.ofScientific mantissa false exponent.natAbs

/-- A number without sign: digits with at most one point among them, then an exponent. -/
def readMagnitude? (text : List Char) : Option Float :=
  let whole := text.takeWhile isDigit
  let afterWhole := text.dropWhile isDigit
  let (fraction, afterFraction) := match afterWhole with
    | '.' :: cs => (cs.takeWhile isDigit, cs.dropWhile isDigit)
    | cs => ([], cs)
  if whole.isEmpty && fraction.isEmpty then none
  else
    (readExponent? afterFraction).map fun exponent =>
      nearest (natOfDigits (whole ++ fraction)) (exponent - fraction.length)

/-- A floating point number in decimal notation. -/
def readFloat? (text : List Char) : Option Float :=
  let (negative, magnitude) := readSign text
  let value := match String.ofList (magnitude.map Char.toLower) with
    | "inf" => some (1.0 / 0.0)
    | "infinity" => some (1.0 / 0.0)
    | "nan" => some (0.0 / 0.0)
    | _ => readMagnitude? magnitude
  value.map fun x => if negative then -x else x

end Decimal
end Clausal
