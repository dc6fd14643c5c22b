import Clausal.Core.Encode

/-!
# Programs from JSON

The inverse of the encoding.  Members of an object may come in any order.  An expression is
decoded to the depth of its JSON value, beyond which nothing is nested.
-/

namespace Clausal
namespace Core

/-- The alternative whose name is given. -/
def named? {α : Type} (name : α → String) (all : List α) (j : Json) : Option α :=
  j.text?.bind fun text => all.find? fun a => name a == text

def decodeUnaryOp : Json → Option UnaryOp := named? unaryOpName [.neg, .not]

def allBinaryOps : List BinaryOp :=
  [.strict .add, .strict .sub, .strict .mul, .strict .div, .strict .equal, .strict .notEqual,
   .strict .less, .strict .lessEqual, .strict .greater, .strict .greaterEqual, .and, .or,
   .strict .concat]

def decodeBinaryOp : Json → Option BinaryOp := named? binaryOpName allBinaryOps

def decodeRecordOp : Json → Option RecordOp := named? recordOpName [.new, .validate, .update]

def decodeLiteral : Json → Option Literal
  | .text "Nil" => some .nil
  | j => do
      let (tag, content) ← j.tag?
      match tag with
      | "Int" => content.int?.map .int
      | "Float" => content.float?.map .float
      | "Text" => content.text?.map .text
      | "Atom" => content.text?.map .atom
      | "Bool" => content.bool?.map .bool
      | _ => none

def decodeCallee (j : Json) : Option Callee := do
  let (tag, content) ← j.tag?
  match tag with
  | "Builtin" => (named? Builtin.name Builtin.all content).map .builtin
  | "Local" => content.text?.map .own
  | "Remote" =>
      return .remote (← content.get? "module" Json.text?) (← content.get? "function" Json.text?)
  | _ => none

mutual

def decodeExpr : (limit : Nat) → Json → Option Expr
  | 0, _ => none
  | limit + 1, j => do
      let (tag, content) ← j.tag?
      match tag with
      | "Literal" => (decodeLiteral content).map .literal
      | "Local" => content.nat?.map .var
      | "Unary" =>
          return .unary (← content.get? "op" decodeUnaryOp)
            (← content.get? "operand" (decodeExpr limit))
      | "Binary" =>
          return .binary (← content.get? "op" decodeBinaryOp)
            (← content.get? "left" (decodeExpr limit)) (← content.get? "right" (decodeExpr limit))
      | "Call" =>
          return .call (← content.get? "callee" decodeCallee)
            (← content.get? "args" (Json.list? (decodeExpr limit)))
      | "List" =>
          let items ← content.get? "items" (Json.list? (decodeExpr limit))
          match ← Json.option? (decodeExpr limit) (content.memberOrNull "tail") with
          | none => return .list items
          | some tail => return .listTail items tail
      | "Tuple" => (Json.list? (decodeExpr limit) content).map .tuple
      | "Map" =>
          (Json.list? (Json.pair? (decodeExpr limit) (decodeExpr limit)) content).map .map
      | "Field" =>
          return .field (← content.get? "target" (decodeExpr limit))
            (← content.get? "field" Json.text?)
      | "If" =>
          return .cond (← content.get? "cond" (decodeExpr limit))
            (← content.get? "then_branch" (Json.get? "stmts" (Json.list? (decodeStmt limit))))
            (← content.get? "else_branch" (Json.get? "stmts" (Json.list? (decodeStmt limit))))
      | "Intrinsic" =>
          return .record (← content.get? "op" decodeRecordOp)
            (← content.get? "record" Json.text?)
            (← content.get? "args" (Json.list? (decodeExpr limit)))
      | _ => none

def decodeStmt : (limit : Nat) → Json → Option Stmt
  | 0, _ => none
  | limit + 1, j => do
      let (tag, content) ← j.tag?
      match tag with
      | "Let" =>
          return .bind (← content.get? "binding" Json.nat?)
            (← content.get? "value" (decodeExpr limit))
      | "Validate" =>
          return .validate (← content.get? "binding" Json.nat?)
            (← content.get? "module" Json.text?)
      | "Expr" => (decodeExpr limit content).map .expr
      | _ => none

end

def decodePattern : (limit : Nat) → Json → Option Pattern
  | 0, _ => none
  | _ + 1, .text "Wildcard" => some .wildcard
  | limit + 1, j => do
      let (tag, content) ← j.tag?
      match tag with
      | "Bind" => content.nat?.map .bind
      | "Same" => content.nat?.map .same
      | "Literal" => (decodeLiteral content).map .literal
      | "Tuple" => (Json.list? (decodePattern limit) content).map .tuple
      | "List" =>
          let items ← content.get? "items" (Json.list? (decodePattern limit))
          match ← Json.option? (decodePattern limit) (content.memberOrNull "tail") with
          | none => return .list items
          | some tail => return .listTail items tail
      | "Map" => (Json.list? (Json.pair? decodeLiteral (decodePattern limit)) content).map .map
      | _ => none

def decodeType : Json → Option TypeExpr
  | .text "self_type" => some .selfType
  | j => do
      let (tag, content) ← j.tag?
      match tag with
      | "base" => (named? BaseType.name BaseType.all content).map .base
      | "external" => content.text?.map .external
      | "var" => content.text?.map .var
      | _ => none

def decodeConstraint (j : Json) : Option TypeConstraint := do
  return { name := ← j.get? "name" Json.text?, bound := ← j.get? "bound" decodeType }

def decodeBindingKind : Json → Option BindingKind
  | .text "Pattern" => some .pattern
  | .text "Local" => some .bound
  | j => do
      let (tag, content) ← j.tag?
      match tag with
      | "Param" => content.nat?.map .param
      | _ => none

def decodeBinding (j : Json) : Option Binding := do
  return { name := ← j.get? "name" Json.text?, kind := ← j.get? "kind" decodeBindingKind }

def decodeBlock (j : Json) : Option Block := j.get? "stmts" (Json.list? (decodeStmt j.depth))

def decodeWholeExpr (j : Json) : Option Expr := decodeExpr j.depth j

def decodeWholePattern (j : Json) : Option Pattern := decodePattern j.depth j

def decodeSignature (j : Json) : Option Signature := do
  return { name := ← j.get? "name" Json.text?
           params := ← j.get? "params" (Json.list? decodeType)
           returnType := ← j.get? "return_type" decodeType
           constraints := ← j.get? "constraints" (Json.list? decodeConstraint) }

def decodeForwardParam (j : Json) : Option ForwardParam := do
  return { name := ← j.get? "name" Json.text?
           slot := ← j.get? "binding" Json.nat?
           default := ← Json.option? decodeWholeExpr (j.memberOrNull "default") }

def decodeForward (j : Json) : Option Forward := do
  return { name := ← j.get? "name" Json.text?
           params := ← j.get? "params" (Json.list? decodeForwardParam) }

def decodeImplementation (j : Json) : Option Implementation := do
  return { patterns := ← j.get? "patterns" (Json.list? decodeWholePattern)
           guard := ← Json.option? decodeWholeExpr (j.memberOrNull "guard")
           body := ← j.get? "body" decodeBlock }

def decodeDeclaration (j : Json) : Option Declaration := do
  return { name := ← j.get? "name" Json.text?
           signature := ← j.get? "signature" decodeSignature
           forward := ← j.get? "forward" decodeForward
           implementations := ← j.get? "implementations" (Json.list? decodeImplementation)
           bindings := ← j.get? "bindings" (Json.get? "bindings" (Json.list? decodeBinding)) }

def decodeRecordField (j : Json) : Option RecordField := do
  return { name := ← j.get? "name" Json.text?, checker := ← j.get? "module" Json.text? }

def decodeRecordDef (j : Json) : Option RecordDef := do
  return { name := ← j.get? "name" Json.text?
           fields := ← j.get? "fields" (Json.list? decodeRecordField) }

def decodeModule (j : Json) : Option ProgramModule := do
  return { name := ← j.get? "name" Json.text?
           functions := ← j.get? "functions" (Json.list? decodeDeclaration)
           record := ← Json.option? decodeRecordDef (j.memberOrNull "record") }

/-- The program that a JSON value encodes. -/
def Program.decode? (j : Json) : Option Program := do
  return { modules := ← j.get? "modules" (Json.list? decodeModule) }

end Core
end Clausal
