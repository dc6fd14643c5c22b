import Clausal.Decimal.Layout
import Clausal.Text.Quoted

/-!
# JSON values and their text

`Json.pretty` writes a value over several lines, each level indented by two spaces.  A number that
is not finite has no notation and is written as `null`.
-/

namespace Clausal

inductive Json where
  | null
  | bool (value : Bool)
  | int (value : Int)
  | float (value : Float)
  | text (value : String)
  | array (items : List Json)
  | object (members : List (String × Json))
  deriving Inhabited

namespace Json

/-- A member of an object that has one member. -/
def tagged (tag : String) (content : Json) : Json := object [(tag, content)]

def nat (n : Nat) : Json := int n

/-- A double; one that is not finite has no notation and becomes `null`. -/
def ofFloat (x : Float) : Json := if Decimal.isFinite x then float x else null

def ofOption {α : Type} (encode : α → Json) : Option α → Json
  | some a => encode a
  | none => null

def ofList {α : Type} (encode : α → Json) (items : List α) : Json := array (items.map encode)

/-- How one character of a JSON text is written. -/
def quoteChar (c : Char) : List Char :=
  match c with
  | '"' => ['\\', '"']
  | '\\' => ['\\', '\\']
  | '\n' => ['\\', 'n']
  | '\r' => ['\\', 'r']
  | '\t' => ['\\', 't']
  | '\x08' => ['\\', 'b']
  | '\x0c' => ['\\', 'f']
  | c =>
      if c.toNat < 32 then
        let digits := Text.hexDigits c.toNat
        ['\\', 'u'] ++ List.replicate (4 - digits.length) '0' ++ digits
      else
        [c]

def quote (text : String) : String :=
  String.ofList ('"' :: text.toList.flatMap quoteChar ++ ['"'])

/-- The start of a line at a level. -/
def newline (level : Nat) : String := "\n" ++ String.ofList (List.replicate (2 * level) ' ')

mutual

/-- The text of a value that stands at a level. -/
def prettyAt : (level : Nat) → Json → String
  | _, null => "null"
  | _, bool b => if b then "true" else "false"
  | _, int n => toString n
  | _, float x => if Decimal.isFinite x then Decimal.json.render x else "null"
  | _, text s => quote s
  | _, array [] => "[]"
  | level, array items =>
      "[" ++ ",".intercalate (prettyItems (level + 1) items) ++ newline level ++ "]"
  | _, object [] => "\x7b\x7d"
  | level, object members =>
      "\x7b" ++ ",".intercalate (prettyMembers (level + 1) members) ++ newline level ++ "\x7d"

def prettyItems : (level : Nat) → List Json → List String
  | _, [] => []
  | level, item :: items => (newline level ++ prettyAt level item) :: prettyItems level items

def prettyMembers : (level : Nat) → List (String × Json) → List String
  | _, [] => []
  | level, (name, value) :: rest =>
      (newline level ++ quote name ++ ": " ++ prettyAt level value) :: prettyMembers level rest

end

def pretty (j : Json) : String := prettyAt 0 j

/-! ## Taking values apart -/

mutual

/-- Nesting depth; a value without parts has depth one. -/
def depth : Json → Nat
  | array items => depthOfItems items + 1
  | object members => depthOfMembers members + 1
  | _ => 1

def depthOfItems : List Json → Nat
  | [] => 0
  | item :: items => max (depth item) (depthOfItems items)

def depthOfMembers : List (String × Json) → Nat
  | [] => 0
  | (_, value) :: rest => max (depth value) (depthOfMembers rest)

end

/-- The value of a member. -/
def member? (name : String) : Json → Option Json
  | object members => members.lookup name
  | _ => none

/-- The value of a member that may be left out. -/
def memberOrNull (name : String) (j : Json) : Json := (j.member? name).getD null

/-- The name and the value of the member of an object that has one member. -/
def tag? : Json → Option (String × Json)
  | object [(tag, content)] => some (tag, content)
  | _ => none

def text? : Json → Option String
  | text s => some s
  | _ => none

def bool? : Json → Option Bool
  | bool b => some b
  | _ => none

def int? : Json → Option Int
  | int n => some n
  | _ => none

def nat? : Json → Option Nat
  | int n => if 0 ≤ n then some n.toNat else none
  | _ => none

/-- A number, whether it is written with a fraction or not. -/
def float? : Json → Option Float
  | float x => some x
  | int n => some (Float.ofInt n)
  | _ => none

/-- Decodes the items of an array. -/
def list? {α : Type} (decode : Json → Option α) : Json → Option (List α)
  | array items => items.mapM decode
  | _ => none

/-- Decodes two items of an array. -/
def pair? {α β : Type} (first : Json → Option α) (second : Json → Option β) :
    Json → Option (α × β)
  | array [a, b] => do return (← first a, ← second b)
  | _ => none

/-- Decodes a value that may be `null`. -/
def option? {α : Type} (decode : Json → Option α) : Json → Option (Option α)
  | null => some none
  | j => (decode j).map some

/-- Decodes a member. -/
def get? {α : Type} (name : String) (decode : Json → Option α) (j : Json) : Option α :=
  (j.member? name).bind decode

end Json
end Clausal
