import Clausal.Value.Basic
import Clausal.Decimal.Layout
import Clausal.Text.Quoted

/-!
# The text of a value

Values are written as the constants of a source text are, as far as there is such a constant.
-/

namespace Clausal
namespace Value

mutual

/-- The text of a value. -/
def render : Value → String
  | int n => toString n
  | float x => Decimal.display.render x
  | bool b => if b then "true" else "false"
  | text s => Text.quoted s
  | binary bytes => "<<" ++ ", ".intercalate (bytes.map fun b => toString b.toNat) ++ ">>"
  | atom name => ":" ++ name
  | nil => "nil"
  | list items => "[" ++ ", ".intercalate (renderItems items) ++ "]"
  | tuple items => "\x7b" ++ ", ".intercalate (renderItems items) ++ "\x7d"
  | map entries => "%\x7b" ++ ", ".intercalate (renderEntries entries) ++ "\x7d"
  | function owner name arity => "&" ++ owner ++ "." ++ name ++ "/" ++ toString arity
  | pid id => "#PID<0." ++ toString id ++ ".0>"
  | reference id => "#Reference<" ++ toString id ++ ">"
  | record typeName fields =>
      "%" ++ typeName ++ "\x7b" ++ ", ".intercalate (renderFields fields) ++ "\x7d"

def renderItems : List Value → List String
  | [] => []
  | v :: vs => render v :: renderItems vs

/-- An atom key is written before a colon, any other key before an arrow. -/
def renderEntries : List (Value × Value) → List String
  | [] => []
  | (atom name, v) :: rest => (name ++ ": " ++ render v) :: renderEntries rest
  | (k, v) :: rest => (render k ++ " => " ++ render v) :: renderEntries rest

def renderFields : List (String × Value) → List String
  | [] => []
  | (name, v) :: rest => (name ++ ": " ++ render v) :: renderFields rest

end

/-- A value with its type, as messages show it. -/
def shown (v : Value) : String := v.render ++ " (" ++ v.typeName ++ ")"

end Value
end Clausal
