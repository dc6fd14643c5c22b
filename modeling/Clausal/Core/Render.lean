import Clausal.Core.Program
import Clausal.Value.Display

/-!
# The text of a program

Programs are shown in a notation close to the source: one `spec` and one `decl` line for each
function, then its implementations.
-/

namespace Clausal
namespace Core

def commaSeparated (items : List String) : String := ", ".intercalate items

def inBraces (text : String) : String := "\x7b" ++ text ++ "\x7d"

def Literal.render : Literal → String
  | int n => toString n
  | float x => Decimal.literal.render x
  | text s => Text.quoted s
  | atom name => ":" ++ name
  | bool b => if b then "true" else "false"
  | nil => "nil"

/-- Binding strength of an operator; a larger number binds tighter. -/
def strength : BinaryOp → Nat
  | .or => 1
  | .and => 2
  | .strict .equal | .strict .notEqual | .strict .less | .strict .lessEqual | .strict .greater
  | .strict .greaterEqual => 3
  | .strict .concat => 4
  | .strict .add | .strict .sub => 5
  | .strict .mul | .strict .div => 6

def Callee.render : Callee → String
  | builtin b => b.name
  | own name => name
  | remote owner name => owner ++ "." ++ name

/-- Puts a text in parentheses if the expression it shows is an infix one for which `test` holds. -/
def parenthesized (e : Expr) (test : Nat → Bool) (text : String) : String :=
  match e with
  | .binary op _ _ => if test (strength op) then "(" ++ text ++ ")" else text
  | _ => text

mutual

/-- The text of an expression, its variables named after the table. -/
def renderExpr (bindings : Bindings) : Expr → String
  | .literal value => value.render
  | .var slot => bindings.nameOf slot
  | .unary op operand =>
      let inner := parenthesized operand (fun _ => true) (renderExpr bindings operand)
      match op with
      | .neg => "-" ++ inner
      | .not => "not " ++ inner
  | .binary op left right =>
      parenthesized left (· < strength op) (renderExpr bindings left) ++ " " ++ op.symbol ++ " "
        ++ parenthesized right (· ≤ strength op) (renderExpr bindings right)
  | .call callee args =>
      callee.render ++ "(" ++ commaSeparated (renderExprs bindings args) ++ ")"
  | .list items => "[" ++ commaSeparated (renderExprs bindings items) ++ "]"
  | .listTail items tail =>
      "[" ++ commaSeparated (renderExprs bindings items) ++ " | " ++ renderExpr bindings tail ++ "]"
  | .tuple items => inBraces (commaSeparated (renderExprs bindings items))
  | .map entries => "%" ++ inBraces (commaSeparated (renderEntries bindings entries))
  | .field target name => renderExpr bindings target ++ "." ++ name
  | .cond condition thenBlock elseBlock =>
      "if " ++ renderExpr bindings condition ++ " "
        ++ inBraces (" " ++ "; ".intercalate (renderStmts bindings thenBlock) ++ " ") ++ " else "
        ++ inBraces (" " ++ "; ".intercalate (renderStmts bindings elseBlock) ++ " ")
  | .record op struct args =>
      op.name ++ "!(" ++ commaSeparated (struct :: renderExprs bindings args) ++ ")"

def renderExprs (bindings : Bindings) : List Expr → List String
  | [] => []
  | e :: es => renderExpr bindings e :: renderExprs bindings es

def renderEntries (bindings : Bindings) : List (Expr × Expr) → List String
  | [] => []
  | (.literal (.atom name), v) :: rest =>
      (name ++ ": " ++ renderExpr bindings v) :: renderEntries bindings rest
  | (k, v) :: rest =>
      (renderExpr bindings k ++ " => " ++ renderExpr bindings v) :: renderEntries bindings rest

def renderStmts (bindings : Bindings) : List Stmt → List String
  | [] => []
  | .bind slot value :: rest =>
      (bindings.nameOf slot ++ " = " ++ renderExpr bindings value) :: renderStmts bindings rest
  | .validate slot checker :: rest =>
      let name := bindings.nameOf slot
      (name ++ " = " ++ checker ++ ".validate!(" ++ name ++ ")") :: renderStmts bindings rest
  | .expr value :: rest => renderExpr bindings value :: renderStmts bindings rest

end

mutual

def renderPattern (bindings : Bindings) : Pattern → String
  | .wildcard => "_"
  | .bind slot => bindings.nameOf slot
  | .same slot => bindings.nameOf slot
  | .literal value => value.render
  | .tuple items => inBraces (commaSeparated (renderPatterns bindings items))
  | .list items => "[" ++ commaSeparated (renderPatterns bindings items) ++ "]"
  | .listTail items tail =>
      "[" ++ commaSeparated (renderPatterns bindings items) ++ " | "
        ++ renderPattern bindings tail ++ "]"
  | .map entries => "%" ++ inBraces (commaSeparated (renderPatternEntries bindings entries))

def renderPatterns (bindings : Bindings) : List Pattern → List String
  | [] => []
  | p :: ps => renderPattern bindings p :: renderPatterns bindings ps

def renderPatternEntries (bindings : Bindings) : List (Literal × Pattern) → List String
  | [] => []
  | (.atom name, p) :: rest =>
      (name ++ ": " ++ renderPattern bindings p) :: renderPatternEntries bindings rest
  | (key, p) :: rest =>
      (key.render ++ " => " ++ renderPattern bindings p) :: renderPatternEntries bindings rest

end

def indent (line : String) : String := "  " ++ line

def Signature.render (s : Signature) : String :=
  let constraints := match s.constraints with
    | [] => ""
    | cs => " where " ++ commaSeparated (cs.map TypeConstraint.render)
  "spec " ++ s.name ++ "(" ++ commaSeparated (s.params.map TypeExpr.render) ++ ") -> "
    ++ s.returnType.render ++ constraints

def ForwardParam.render (bindings : Bindings) (p : ForwardParam) : String :=
  match p.default with
  | some value => p.name ++ " \\\\ " ++ renderExpr bindings value
  | none => p.name

def Implementation.lines (d : Declaration) (i : Implementation) : List String :=
  let guard := match i.guard with
    | some guard => " when " ++ renderExpr d.bindings guard
    | none => ""
  let head := "impl " ++ d.name ++ "(" ++ commaSeparated (renderPatterns d.bindings i.patterns)
    ++ ")" ++ guard ++ " \x7b"
  head :: (renderStmts d.bindings i.body).map indent ++ ["\x7d"]

/-- The lines that show a function. -/
def Declaration.lines (d : Declaration) : List String :=
  d.signature.render
    :: ("decl " ++ d.name ++ "("
        ++ commaSeparated (d.forward.params.map (ForwardParam.render d.bindings)) ++ ")")
    :: d.implementations.flatMap (Implementation.lines d)

def Declaration.render (d : Declaration) : String := "\n".intercalate d.lines

def RecordDef.render (r : RecordDef) : String :=
  let fields := commaSeparated (r.fields.map fun f => f.name ++ ": " ++ f.checker)
  "record " ++ r.name ++ " " ++ inBraces (" " ++ fields ++ " ")

/-- Puts an empty line between the parts of a module. -/
def separated : List (List String) → List String
  | [] => []
  | [part] => part
  | part :: parts => part ++ "" :: separated parts

def ProgramModule.render (m : ProgramModule) : String :=
  let record := match m.record with
    | some r => [[indent r.render]]
    | none => []
  let functions := m.functions.map fun d => d.lines.map indent
  "\n".intercalate
    (("module " ++ m.name ++ " \x7b") :: separated (record ++ functions) ++ ["\x7d"])

def Program.render (p : Program) : String := "\n\n".intercalate (p.modules.map ProgramModule.render)

end Core
end Clausal
