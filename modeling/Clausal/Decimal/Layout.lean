import Clausal.Decimal.Shortest

/-!
# Writing doubles

Every form of a double has the fewest digits that read back; a `Layout` says which of two equally
near rows of digits is taken and how they are laid out: for which sizes the point is placed among
the digits, what a number without fraction is completed with, and how an exponent is written.
-/

namespace Clausal
namespace Decimal

structure Layout where
  /-- Which of two equally near rows of digits is taken. -/
  tie : Tie
  /-- Whether a number whose first digit stands at `10 ^ lead` is written without an exponent. -/
  positional : (lead : Int) → Bool
  /-- What is written after a positional number whose first digit stands at `10 ^ lead` and that
  has no fraction. -/
  wholeSuffix : (lead : Int) → String
  /-- What is written before an exponent that is not negative. -/
  exponentSign : String

/-- A row of digits with a point after the digit at `10 ^ 0`. -/
def positionalText (layout : Layout) (digits : List Char) (exponent : Int) : String :=
  let lead : Int := exponent + digits.length - 1
  if 0 ≤ exponent then
    String.ofList (digits ++ List.replicate exponent.natAbs '0') ++ layout.wholeSuffix lead
  else if 0 ≤ lead then
    let whole := lead.natAbs + 1
    String.ofList (digits.take whole) ++ "." ++ String.ofList (digits.drop whole)
  else
    "0." ++ String.ofList (List.replicate (lead.natAbs - 1) '0' ++ digits)

/-- The first digit, a point before the others if there are any, and the exponent. -/
def exponentText (layout : Layout) (digits : List Char) (exponent : Int) : String :=
  let lead : Int := exponent + digits.length - 1
  let fraction := match digits.drop 1 with
    | [] => ""
    | rest => "." ++ String.ofList rest
  let sign := if lead < 0 then "-" else layout.exponentSign
  String.ofList (digits.take 1) ++ fraction ++ "e" ++ sign ++ toString lead.natAbs

def Scientific.render (layout : Layout) (s : Scientific) : String :=
  let digits := Nat.toDigits 10 s.digits
  if layout.positional (s.exponent + digits.length - 1) then
    positionalText layout digits s.exponent
  else
    exponentText layout digits s.exponent

def signText (negative : Bool) : String := if negative then "-" else ""

/-- A double in a layout. -/
def Layout.render (layout : Layout) (x : Float) : String :=
  match decode x with
  | .nan => "NaN"
  | .infinite negative => signText negative ++ "inf"
  | .zero negative => signText negative ++ "0" ++ layout.wholeSuffix 0
  | .finite negative b => signText negative ++ (shortest layout.tie b).render layout

/-- Never an exponent and no completion: bounds in messages. -/
def plain : Layout := ⟨.up, fun _ => true, fun _ => "", ""⟩

/-- Never an exponent; a number without fraction ends in `.0` below `10 ^ 15`. -/
def display : Layout := ⟨.up, fun _ => true, fun lead => if lead < 15 then ".0" else "", ""⟩

/-- The form of literals: positional from `10 ^ -4` to below `10 ^ 16`, always with a fraction or
an exponent. -/
def literal : Layout := ⟨.up, fun lead => -4 ≤ lead && lead ≤ 15, fun _ => ".0", ""⟩

/-- The form of numbers in JSON texts: positional from `10 ^ -5` to below `10 ^ 16`, and an
exponent always has a sign.  Of two equally near rows of digits the even one is taken. -/
def json : Layout := ⟨.even, fun lead => -5 ≤ lead && lead ≤ 15, fun _ => ".0", "+"⟩

/-- Whether a double is a number of finite size. -/
def isFinite (x : Float) : Bool :=
  match decode x with
  | .nan | .infinite _ => false
  | .zero _ | .finite _ _ => true

end Decimal
end Clausal
