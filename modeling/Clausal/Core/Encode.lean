import Clausal.Core.Program
import Clausal.Json.Basic

/-!
# Programs as JSON

Structures are objects.  A form of several alternatives is an object with one member, named for
the alternative, or just its name when there is nothing to add.
-/

namespace Clausal
namespace Core

def unaryOpName : UnaryOp → String
  | .neg => "Neg"
  | .not => "Not"

def binaryOpName : BinaryOp → String
  | .strict .add => "Add"
  | .strict .sub => "Sub"
  | .strict .mul => "Mul"
  | .strict .div => "Div"
  | .strict .equal => "Eq"
  | .strict .notEqual => "NotEq"
  | .strict .less => "Lt"
  | .strict .lessEqual => "LtEq"
  | .strict .greater => "Gt"
  | .strict .greaterEqual => "GtEq"
  | .and => "And"
  | .or => "Or"
  | .strict .concat => "Concat"

def recordOpName : RecordOp → String
  | .new => "RecordNew"
  | .validate => "RecordValidate"
  | .update => "RecordUpdate"

def Literal.encode : Literal → Json
  | int n => .tagged "Int" (.int n)
  | float x => .tagged "Float" (.ofFloat x)
  | text s => .tagged "Text" (.text s)
  | atom name => .tagged "Atom" (.text name)
  | bool b => .tagged "Bool" (.bool b)
  | nil => .text "Nil"

def Callee.encode : Callee → Json
  | builtin b => .tagged "Builtin" (.text b.name)
  | own name => .tagged "Local" (.text name)
  | remote owner name =>
      .tagged "Remote" (.object [("module", .text owner), ("function", .text name)])

mutual

def encodeExpr : Expr → Json
  | .literal value => .tagged "Literal" value.encode
  | .var slot => .tagged "Local" (.nat slot)
  | .unary op operand =>
      .tagged "Unary" (.object [("op", .text (unaryOpName op)), ("operand", encodeExpr operand)])
  | .binary op left right =>
      .tagged "Binary" (.object
        [("op", .text (binaryOpName op)), ("left", encodeExpr left), ("right", encodeExpr right)])
  | .call callee args =>
      .tagged "Call" (.object [("callee", callee.encode), ("args", .array (encodeExprs args))])
  | .list items =>
      .tagged "List" (.object [("items", .array (encodeExprs items)), ("tail", .null)])
  | .listTail items tail =>
      .tagged "List" (.object [("items", .array (encodeExprs items)), ("tail", encodeExpr tail)])
  | .tuple items => .tagged "Tuple" (.array (encodeExprs items))
  | .map entries => .tagged "Map" (.array (encodeEntries entries))
  | .field target name =>
      .tagged "Field" (.object [("target", encodeExpr target), ("field", .text name)])
  | .cond condition thenBlock elseBlock =>
      .tagged "If" (.object
        [("cond", encodeExpr condition),
         ("then_branch", .object [("stmts", .array (encodeStmts thenBlock))]),
         ("else_branch", .object [("stmts", .array (encodeStmts elseBlock))])])
  | .record op struct args =>
      .tagged "Intrinsic" (.object
        [("op", .text (recordOpName op)), ("record", .text struct),
         ("args", .array (encodeExprs args))])

def encodeExprs : List Expr → List Json
  | [] => []
  | e :: es => encodeExpr e :: encodeExprs es

def encodeEntries : List (Expr × Expr) → List Json
  | [] => []
  | (k, v) :: rest => .array [encodeExpr k, encodeExpr v] :: encodeEntries rest

def encodeStmts : List Stmt → List Json
  | [] => []
  | .bind slot value :: rest =>
      .tagged "Let" (.object [("binding", .nat slot), ("value", encodeExpr value)])
        :: encodeStmts rest
  | .validate slot checker :: rest =>
      .tagged "Validate" (.object [("binding", .nat slot), ("module", .text checker)])
        :: encodeStmts rest
  | .expr value :: rest => .tagged "Expr" (encodeExpr value) :: encodeStmts rest

end

def encodeBlock (block : Block) : Json := .object [("stmts", .array (encodeStmts block))]

mutual

def encodePattern : Pattern → Json
  | .wildcard => .text "Wildcard"
  | .bind slot => .tagged "Bind" (.nat slot)
  | .same slot => .tagged "Same" (.nat slot)
  | .literal value => .tagged "Literal" value.encode
  | .tuple items => .tagged "Tuple" (.array (encodePatterns items))
  | .list items =>
      .tagged "List" (.object [("items", .array (encodePatterns items)), ("tail", .null)])
  | .listTail items tail =>
      .tagged "List" (.object
        [("items", .array (encodePatterns items)), ("tail", encodePattern tail)])
  | .map entries => .tagged "Map" (.array (encodePatternEntries entries))

def encodePatterns : List Pattern → List Json
  | [] => []
  | p :: ps => encodePattern p :: encodePatterns ps

def encodePatternEntries : List (Literal × Pattern) → List Json
  | [] => []
  | (key, p) :: rest => .array [key.encode, encodePattern p] :: encodePatternEntries rest

end

def encodeType : TypeExpr → Json
  | .base type => .tagged "base" (.text type.name)
  | .external name => .tagged "external" (.text name)
  | .selfType => .text "self_type"
  | .var name => .tagged "var" (.text name)

def encodeConstraint (c : TypeConstraint) : Json :=
  .object [("name", .text c.name), ("bound", encodeType c.bound)]

def BindingKind.encode : BindingKind → Json
  | param position => .tagged "Param" (.nat position)
  | pattern => .text "Pattern"
  | bound => .text "Local"

def encodeBindings (bindings : Bindings) : Json :=
  .object [("bindings", .ofList (fun (b : Binding) =>
    .object [("name", .text b.name), ("kind", b.kind.encode)]) bindings)]

def Signature.encode (s : Signature) : Json :=
  .object
    [("name", .text s.name), ("params", .ofList encodeType s.params),
     ("return_type", encodeType s.returnType),
     ("constraints", .ofList encodeConstraint s.constraints)]

def ForwardParam.encode (p : ForwardParam) : Json :=
  .object
    [("name", .text p.name), ("binding", .nat p.slot), ("default", .ofOption encodeExpr p.default)]

def Forward.encode (f : Forward) : Json :=
  .object [("name", .text f.name), ("params", .ofList ForwardParam.encode f.params)]

def Implementation.encode (i : Implementation) : Json :=
  .object
    [("patterns", .ofList encodePattern i.patterns), ("guard", .ofOption encodeExpr i.guard),
     ("body", encodeBlock i.body)]

def Declaration.encode (d : Declaration) : Json :=
  .object
    [("name", .text d.name), ("signature", d.signature.encode), ("forward", d.forward.encode),
     ("implementations", .ofList Implementation.encode d.implementations),
     ("bindings", encodeBindings d.bindings)]

def RecordDef.encode (r : RecordDef) : Json :=
  .object
    [("name", .text r.name),
     ("fields", .ofList (fun (f : RecordField) =>
       .object [("name", .text f.name), ("module", .text f.checker)]) r.fields)]

def ProgramModule.encode (m : ProgramModule) : Json :=
  .object
    [("name", .text m.name), ("functions", .ofList Declaration.encode m.functions),
     ("record", .ofOption RecordDef.encode m.record)]

def Program.encode (p : Program) : Json :=
  .object [("modules", .ofList ProgramModule.encode p.modules)]

end Core
end Clausal
