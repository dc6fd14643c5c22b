import Clausal.Toml.Basic
import Clausal.Toml.Text
import Clausal.Decimal.Read
import Clausal.Decimal.Layout

/-!
# Numbers, dates and truth values in configuration documents

The values that are written without quotes or brackets.  Integers may have any size here; what is
made of them decides which sizes it takes.
-/

namespace Clausal
namespace Toml

/-! ## Numbers -/

/-- Removes the underscores of a number, each of which must stand between digits. -/
def dropUnderscores? (isDigit : Char → Bool) : (before : Bool) → List Char → Option (List Char)
  | _, [] => some []
  | before, '_' :: cs =>
      match cs with
      | c :: _ => if before && isDigit c then dropUnderscores? isDigit false cs else none
      | [] => none
  | _, c :: cs => (dropUnderscores? isDigit (isDigit c) cs).map (c :: ·)

/-- A decimal integer. -/
def integer? (text : List Char) : Option Value :=
  let (negative, digits) := Decimal.readSign text
  if Decimal.isPlain digits then
    let n : Int := Decimal.natOfDigits digits
    some (.int (if negative then -n else n))
  else
    none

/-- An integer in the base that its first two characters name. -/
def basedInteger? : List Char → Option Value
  | '0' :: mark :: digits =>
      let base := match mark with
        | 'x' => 16
        | 'o' => 8
        | 'b' => 2
        | _ => 0
      match digits.mapM Text.hexValue? with
      | some values =>
          if !values.isEmpty && values.all (· < base) then
            some (.int (values.foldl (fun n d => n * base + d) 0 : Nat))
          else
            none
      | none => none
  | _ => none

/-- A decimal fraction or a number with an exponent, which must not be too large for a double. -/
def float? (text : List Char) : Option Value :=
  let (_, magnitude) := Decimal.readSign text
  let word := String.ofList magnitude
  if word == "inf" || word == "nan" then (Decimal.readFloat? text).map .float
  else
    let whole := magnitude.takeWhile Decimal.isDigit
    let fractionSound := match magnitude.dropWhile Decimal.isDigit with
      | '.' :: c :: _ => Decimal.isDigit c
      | '.' :: [] => false
      | _ => true
    if Decimal.isPlain whole && fractionSound then
      (Decimal.readFloat? text).bind fun x => if Decimal.isFinite x then some (.float x) else none
    else
      none

/-- The characters between which an underscore may stand. -/
def digitOf (text : List Char) : Char → Bool :=
  match text with
  | '0' :: 'x' :: _ => fun c => (Text.hexValue? c).isSome
  | _ => Decimal.isDigit

/-- A number. -/
def number? (text : List Char) : Option Value :=
  match dropUnderscores? (digitOf text) false text with
  | some digits => (integer? digits).or ((basedInteger? digits).or (float? digits))
  | none => none

/-! ## Dates and times -/

/-- The value of exactly `count` digits at the start of a text. -/
def digits? (count : Nat) (cs : List Char) : Option (Nat × List Char) :=
  if (cs.take count).length = count then
    (Decimal.readNat? (cs.take count)).map fun n => (n, cs.drop count)
  else
    none

def isLeapYear (year : Nat) : Bool := year % 4 == 0 && (year % 100 != 0 || year % 400 == 0)

def daysOfMonth (year month : Nat) : Nat :=
  if month = 2 then (if isLeapYear year then 29 else 28)
  else if [4, 6, 9, 11].contains month then 30
  else 31

/-- What follows a date. -/
def afterDate? (cs : List Char) : Option (List Char) := do
  match ← digits? 4 cs with
  | (year, '-' :: rest) =>
      match ← digits? 2 rest with
      | (month, '-' :: rest) =>
          let (day, rest) ← digits? 2 rest
          if 1 ≤ month && month ≤ 12 && 1 ≤ day && day ≤ daysOfMonth year month then some rest
          else none
      | _ => none
  | _ => none

/-- What follows the fraction of a second, if there is one. -/
def afterFraction? : List Char → Option (List Char)
  | '.' :: c :: cs => if Decimal.isDigit c then some (cs.dropWhile Decimal.isDigit) else none
  | '.' :: [] => none
  | cs => some cs

/-- What follows a time of day; its seconds may be left out. -/
def afterTime? (cs : List Char) : Option (List Char) := do
  match ← digits? 2 cs with
  | (hour, ':' :: rest) =>
      let (minute, rest) ← digits? 2 rest
      if 23 < hour || 59 < minute then none
      else
        match rest with
        | ':' :: rest =>
            let (second, rest) ← digits? 2 rest
            if 60 < second then none else afterFraction? rest
        | rest => some rest
  | _ => none

/-- Whether a text is the offset of a time zone, or nothing. -/
def isOffset : List Char → Bool
  | [] => true
  | 'Z' :: [] => true
  | 'z' :: [] => true
  | sign :: cs =>
      (sign == '+' || sign == '-') &&
        match digits? 2 cs with
        | some (hour, ':' :: rest) =>
            match digits? 2 rest with
            | some (minute, []) => hour ≤ 23 && minute ≤ 59
            | _ => false
        | _ => false

def isDateMark (c : Char) : Bool := c == 'T' || c == 't' || c == ' '

/-- A date, a time of day, or a date with a time and perhaps a time zone. -/
def isMoment (text : List Char) : Bool :=
  match afterDate? text with
  | some [] => true
  | some (mark :: rest) => isDateMark mark && (afterTime? rest).any isOffset
  | none => afterTime? text == some []

/-- A date or a time, kept as it is written. -/
def moment? (text : List Char) : Option Value :=
  if isMoment text then some (.moment (String.ofList text)) else none

/-! ## Words -/

/-- A value without quotes and brackets. -/
def word? (text : List Char) : Option Value :=
  match String.ofList text with
  | "true" => some (.bool true)
  | "false" => some (.bool false)
  | _ => (number? text).or (moment? text)

end Toml
end Clausal
