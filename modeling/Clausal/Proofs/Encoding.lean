import Clausal.Core.Decode
import Clausal.Machine.Basic
import Clausal.Proofs.Emitted

/-!
# Programs come back from JSON

A program is written as a JSON value and read back.  Nothing is lost on the way: every form has a tag of
its own, every structure names all its fields, and what may be missing is `null`, which no form is
written as.  The one exception are floats that are not finite, which JSON cannot express.

* `Program.floats` lists the float literals of a program.
* `decodeExpr_encodeExpr` and `decodePattern_encodePattern` are the steps through the two kinds of trees;
  their limits are the depth of the JSON value, which falls at every step.
* `Program.decode?_encode` puts the structures of a program together.

Main statement: `Machine.decoded_program_runs_alike`.
-/

namespace Clausal

/-! ## Parts of JSON values -/

namespace Json

section Parts

variable {α β : Type} {encode : α → Json} {decode : Json → Option α}

/-- The member that is looked for. -/
@[simp] theorem get?_self (name : String) (value : Json) (rest : List (String × Json)) :
    (object ((name, value) :: rest)).get? name decode = decode value := by
  simp [get?, member?]

/-- Members of other names are passed over. -/
@[simp] theorem get?_of_ne {name other : String} (differs : (name == other) = false) (value : Json)
    (rest : List (String × Json)) :
    (object ((other, value) :: rest)).get? name decode = (object rest).get? name decode := by
  simp [get?, member?, List.lookup_cons, differs]

@[simp] theorem memberOrNull_self (name : String) (value : Json) (rest : List (String × Json)) :
    (object ((name, value) :: rest)).memberOrNull name = value := by
  simp [memberOrNull, member?]

@[simp] theorem memberOrNull_of_ne {name other : String} (differs : (name == other) = false)
    (value : Json) (rest : List (String × Json)) :
    (object ((other, value) :: rest)).memberOrNull name = (object rest).memberOrNull name := by
  simp [memberOrNull, member?, List.lookup_cons, differs]

@[simp] theorem nat?_nat (n : Nat) : (nat n).nat? = some n := by
  simp [nat, nat?]

theorem list?_cons {j : Json} {js : List Json} {a : α} {as : List α} (first : decode j = some a)
    (rest : list? decode (array js) = some as) :
    list? decode (array (j :: js)) = some (a :: as) := by
  simp only [list?] at rest ⊢
  simp [first, rest]

/-- A row comes back if each of its items does. -/
theorem list?_ofList {items : List α} (each : ∀ a ∈ items, decode (encode a) = some a) :
    list? decode (ofList encode items) = some items := by
  induction items with
  | nil => rfl
  | cons a items ih =>
      rw [List.forall_mem_cons] at each
      exact list?_cons each.1 (ih each.2)

/-- What is there comes back if it is not written as `null`. -/
theorem option?_encode {a : α} (solid : encode a ≠ null) (back : decode (encode a) = some a) :
    option? decode (encode a) = some (some a) := by
  unfold option?
  split
  · next isNull => exact absurd isNull solid
  · rw [back]
    rfl

/-- What may be missing comes back if nothing that is there is written as `null`. -/
theorem option?_ofOption {value : Option α} (solid : ∀ a ∈ value, encode a ≠ null)
    (each : ∀ a ∈ value, decode (encode a) = some a) :
    option? decode (ofOption encode value) = some value := by
  cases value with
  | none => rfl
  | some a => exact option?_encode (solid a rfl) (each a rfl)

end Parts

/-! ## Depth -/

section Depth

variable {limit : Nat}

theorem depth_tagged (tag : String) (content : Json) :
    (tagged tag content).depth = content.depth + 1 := by
  simp [tagged, depth, depthOfMembers]

/-- The items of an array are less deep than the array. -/
theorem depth_le_of_array {items : List Json} (bound : (array items).depth ≤ limit) :
    ∀ item ∈ items, item.depth ≤ limit := by
  have deepest : ∀ items : List Json, ∀ item ∈ items, item.depth ≤ depthOfItems items := by
    intro items
    induction items with
    | nil => exact List.forall_mem_nil _
    | cons first rest ih =>
        refine List.forall_mem_cons.mpr ⟨Nat.le_max_left .., fun item member => ?_⟩
        exact Nat.le_trans (ih item member) (Nat.le_max_right ..)
  intro item member
  have inside := deepest items item member
  rw [depth] at bound
  omega

/-- The members of an object are less deep than the object. -/
theorem depth_le_of_object {members : List (String × Json)} (bound : (object members).depth ≤ limit) :
    ∀ entry ∈ members, entry.2.depth ≤ limit := by
  have deepest : ∀ members : List (String × Json), ∀ entry ∈ members,
      entry.2.depth ≤ depthOfMembers members := by
    intro members
    induction members with
    | nil => exact List.forall_mem_nil _
    | cons first rest ih =>
        refine List.forall_mem_cons.mpr ⟨Nat.le_max_left .., fun entry member => ?_⟩
        exact Nat.le_trans (ih entry member) (Nat.le_max_right ..)
  intro entry member
  have inside := deepest members entry member
  rw [depth] at bound
  omega

/-- The content of a tag is less deep than the whole. -/
theorem depth_le_of_tagged {tag : String} {content : Json}
    (bound : (tagged tag content).depth ≤ limit + 1) : content.depth ≤ limit := by
  rw [depth_tagged] at bound
  omega

theorem depth_array_cons {item : Json} {items : List Json}
    (bound : (array (item :: items)).depth ≤ limit) :
    item.depth ≤ limit ∧ (array items).depth ≤ limit := by
  simp only [depth, depthOfItems] at bound ⊢
  omega

/-- A value has a depth, so within it there is a step left to decode its tag. -/
theorem exists_step {j : Json} (bound : j.depth ≤ limit) : ∃ fewer, limit = fewer + 1 := by
  have positive : 0 < j.depth := by cases j <;> simp [depth]
  exact ⟨limit - 1, by omega⟩

end Depth

end Json

namespace Core

open Json

/-! ## Float literals -/

def Literal.floats : Literal → List Float
  | .float x => [x]
  | _ => []

mutual

/-- The float literals in an expression. -/
def Expr.floats : Expr → List Float
  | .literal value => value.floats
  | .var _ => []
  | .unary _ operand => operand.floats
  | .binary _ left right => left.floats ++ right.floats
  | .call _ args => floatsAmong args
  | .list items => floatsAmong items
  | .listTail items tail => floatsAmong items ++ tail.floats
  | .tuple items => floatsAmong items
  | .map entries => floatsInEntries entries
  | .field target _ => target.floats
  | .cond condition thenBlock elseBlock =>
      condition.floats ++ (floatsInBlock thenBlock ++ floatsInBlock elseBlock)
  | .record _ _ args => floatsAmong args

def floatsAmong : List Expr → List Float
  | [] => []
  | e :: es => e.floats ++ floatsAmong es

def floatsInEntries : List (Expr × Expr) → List Float
  | [] => []
  | (k, v) :: rest => k.floats ++ (v.floats ++ floatsInEntries rest)

def floatsInBlock : List Stmt → List Float
  | [] => []
  | .bind _ value :: rest => value.floats ++ floatsInBlock rest
  | .validate _ _ :: rest => floatsInBlock rest
  | .expr value :: rest => value.floats ++ floatsInBlock rest

end

mutual

/-- The float literals in a pattern. -/
def Pattern.floats : Pattern → List Float
  | .literal value => value.floats
  | .tuple items => floatsInPatterns items
  | .list items => floatsInPatterns items
  | .listTail items tail => floatsInPatterns items ++ tail.floats
  | .map entries => floatsInPatternEntries entries
  | _ => []

def floatsInPatterns : List Pattern → List Float
  | [] => []
  | p :: ps => p.floats ++ floatsInPatterns ps

def floatsInPatternEntries : List (Literal × Pattern) → List Float
  | [] => []
  | (key, p) :: rest => key.floats ++ (p.floats ++ floatsInPatternEntries rest)

end

def optionFloats (e : Option Expr) : List Float := e.elim [] Expr.floats

def Implementation.floats (i : Implementation) : List Float :=
  floatsInPatterns i.patterns ++ (optionFloats i.guard ++ floatsInBlock i.body)

def Declaration.floats (d : Declaration) : List Float :=
  (d.forward.params.flatMap fun p => optionFloats p.default)
    ++ d.implementations.flatMap Implementation.floats

/-- The float literals in a program. -/
def Program.floats (p : Program) : List Float :=
  p.modules.flatMap fun m => m.functions.flatMap Declaration.floats

/-- Some floats, all of which are finite. -/
def AllFinite (floats : List Float) : Prop := ∀ x ∈ floats, Decimal.isFinite x = true

theorem allFinite_append {floats more : List Float} :
    AllFinite (floats ++ more) ↔ AllFinite floats ∧ AllFinite more :=
  List.forall_mem_append

/-! ## Names and literals -/

theorem decodeUnaryOp_name (op : UnaryOp) : decodeUnaryOp (.text (unaryOpName op)) = some op := by
  cases op <;> rfl

theorem decodeBinaryOp_name (op : BinaryOp) : decodeBinaryOp (.text (binaryOpName op)) = some op := by
  rcases op with op | _ | _
  · cases op <;> rfl
  · rfl
  · rfl

theorem decodeRecordOp_name (op : RecordOp) : decodeRecordOp (.text (recordOpName op)) = some op := by
  cases op <;> rfl

theorem named?_builtin (b : Builtin) : named? Builtin.name Builtin.all (.text b.name) = some b := by
  cases b <;> rfl

theorem named?_baseType (b : BaseType) :
    named? BaseType.name BaseType.all (.text b.name) = some b := by
  cases b <;> rfl

theorem decodeLiteral_encode {value : Literal} (finite : AllFinite value.floats) :
    decodeLiteral value.encode = some value := by
  cases value with
  | float x =>
      have shown : Json.ofFloat x = .float x := if_pos (finite x (List.mem_singleton_self x))
      rw [Literal.encode, shown]
      rfl
  | int | text | atom | bool | nil => rfl

theorem decodeCallee_encode (callee : Callee) : decodeCallee callee.encode = some callee := by
  cases callee with
  | builtin b =>
      change (named? Builtin.name Builtin.all (.text b.name)).map Callee.builtin = _
      rw [named?_builtin]
      rfl
  | own | remote => rfl

/-! ## Expressions and statements -/

theorem encodeExpr_ne_null (e : Expr) : encodeExpr e ≠ .null := by
  cases e <;> nofun

/-- The members of the content of a tag. -/
theorem members_bound {tag : String} {members : List (String × Json)} {limit : Nat}
    (bound : (tagged tag (.object members)).depth ≤ limit + 1) :
    ∀ entry ∈ members, entry.2.depth ≤ limit :=
  depth_le_of_object (depth_le_of_tagged bound)

mutual

/-- An expression comes back from its JSON value. -/
theorem decodeExpr_encodeExpr (e : Expr) (finite : AllFinite e.floats) {limit : Nat}
    (bound : (encodeExpr e).depth ≤ limit) : decodeExpr limit (encodeExpr e) = some e := by
  obtain ⟨limit, rfl⟩ := exists_step bound
  -- The members of an object lie less deep than the object, so what is left of the limit is enough for
  -- each of them.
  cases e with
  | literal value =>
      change (decodeLiteral value.encode).map Expr.literal = _
      rw [decodeLiteral_encode finite]
      rfl
  | var slot =>
      change (Json.nat slot).nat?.map Expr.var = _
      rw [nat?_nat]
      rfl
  | unary op operand =>
      have inside := members_bound bound
      simp only [List.forall_mem_cons] at inside
      have operandBack := decodeExpr_encodeExpr operand finite inside.2.1
      simp [encodeExpr, decodeExpr, tagged, tag?, decodeUnaryOp_name, operandBack]
  | binary op left right =>
      have inside := members_bound bound
      simp only [List.forall_mem_cons] at inside
      rw [Expr.floats, allFinite_append] at finite
      have leftBack := decodeExpr_encodeExpr left finite.1 inside.2.1
      have rightBack := decodeExpr_encodeExpr right finite.2 inside.2.2.1
      simp [encodeExpr, decodeExpr, tagged, tag?, decodeBinaryOp_name, leftBack, rightBack]
  | call callee args =>
      have inside := members_bound bound
      simp only [List.forall_mem_cons] at inside
      have argsBack := decodeExprs_encodeExprs args finite inside.2.1
      simp [encodeExpr, decodeExpr, tagged, tag?, decodeCallee_encode, argsBack]
  | list items =>
      have inside := members_bound bound
      simp only [List.forall_mem_cons] at inside
      have itemsBack := decodeExprs_encodeExprs items finite inside.1
      simp [encodeExpr, decodeExpr, tagged, tag?, option?, itemsBack]
  | listTail items tail =>
      have inside := members_bound bound
      simp only [List.forall_mem_cons] at inside
      rw [Expr.floats, allFinite_append] at finite
      have itemsBack := decodeExprs_encodeExprs items finite.1 inside.1
      have tailBack : option? (decodeExpr limit) (encodeExpr tail) = some (some tail) :=
        option?_encode (encodeExpr_ne_null tail) (decodeExpr_encodeExpr tail finite.2 inside.2.1)
      simp [encodeExpr, decodeExpr, tagged, tag?, itemsBack, tailBack]
  | tuple items =>
      have itemsBack := decodeExprs_encodeExprs items finite (depth_le_of_tagged bound)
      simp [encodeExpr, decodeExpr, tagged, tag?, itemsBack]
  | map entries =>
      have entriesBack := decodeEntries_encodeEntries entries finite (depth_le_of_tagged bound)
      simp [encodeExpr, decodeExpr, tagged, tag?, entriesBack]
  | field target name =>
      have inside := members_bound bound
      simp only [List.forall_mem_cons] at inside
      have targetBack := decodeExpr_encodeExpr target finite inside.1
      simp [encodeExpr, decodeExpr, tagged, tag?, targetBack, text?]
  | cond condition thenBlock elseBlock =>
      have inside := members_bound bound
      simp only [List.forall_mem_cons] at inside
      rw [Expr.floats, allFinite_append, allFinite_append] at finite
      have thenInside := depth_le_of_object inside.2.1
      have elseInside := depth_le_of_object inside.2.2.1
      simp only [List.forall_mem_cons] at thenInside elseInside
      have conditionBack := decodeExpr_encodeExpr condition finite.1 inside.1
      have thenBack := decodeStmts_encodeStmts thenBlock finite.2.1 thenInside.1
      have elseBack := decodeStmts_encodeStmts elseBlock finite.2.2 elseInside.1
      simp [encodeExpr, decodeExpr, tagged, tag?, conditionBack, thenBack, elseBack]
  | record op struct args =>
      have inside := members_bound bound
      simp only [List.forall_mem_cons] at inside
      have argsBack := decodeExprs_encodeExprs args finite inside.2.2.1
      simp [encodeExpr, decodeExpr, tagged, tag?, decodeRecordOp_name, text?, argsBack]

theorem decodeExprs_encodeExprs (es : List Expr) (finite : AllFinite (floatsAmong es)) {limit : Nat}
    (bound : (Json.array (encodeExprs es)).depth ≤ limit) :
    list? (decodeExpr limit) (.array (encodeExprs es)) = some es := by
  match es with
  | [] => rfl
  | e :: es =>
      rw [floatsAmong, allFinite_append] at finite
      obtain ⟨first, rest⟩ := depth_array_cons bound
      exact list?_cons (decodeExpr_encodeExpr e finite.1 first)
        (decodeExprs_encodeExprs es finite.2 rest)

theorem decodeEntries_encodeEntries (entries : List (Expr × Expr))
    (finite : AllFinite (floatsInEntries entries)) {limit : Nat}
    (bound : (Json.array (encodeEntries entries)).depth ≤ limit) :
    list? (pair? (decodeExpr limit) (decodeExpr limit)) (.array (encodeEntries entries))
      = some entries := by
  match entries with
  | [] => rfl
  | (k, v) :: entries =>
      rw [floatsInEntries, allFinite_append, allFinite_append] at finite
      obtain ⟨first, rest⟩ := depth_array_cons bound
      have inside := depth_le_of_array first
      simp only [List.forall_mem_cons] at inside
      have keyBack := decodeExpr_encodeExpr k finite.1 inside.1
      have valueBack := decodeExpr_encodeExpr v finite.2.1 inside.2.1
      exact list?_cons (by simp [pair?, keyBack, valueBack])
        (decodeEntries_encodeEntries entries finite.2.2 rest)

theorem decodeStmts_encodeStmts (block : List Stmt) (finite : AllFinite (floatsInBlock block))
    {limit : Nat} (bound : (Json.array (encodeStmts block)).depth ≤ limit) :
    list? (decodeStmt limit) (.array (encodeStmts block)) = some block := by
  match block with
  | [] => rfl
  | .bind slot value :: block =>
      rw [floatsInBlock, allFinite_append] at finite
      obtain ⟨first, rest⟩ := depth_array_cons bound
      obtain ⟨limit, rfl⟩ := exists_step first
      have inside := members_bound first
      simp only [List.forall_mem_cons] at inside
      have valueBack := decodeExpr_encodeExpr value finite.1 inside.2.1
      exact list?_cons (by simp [decodeStmt, tagged, tag?, valueBack])
        (decodeStmts_encodeStmts block finite.2 rest)
  | .validate slot checker :: block =>
      obtain ⟨first, rest⟩ := depth_array_cons bound
      obtain ⟨limit, rfl⟩ := exists_step first
      exact list?_cons (by simp [decodeStmt, tagged, tag?, text?])
        (decodeStmts_encodeStmts block finite rest)
  | .expr value :: block =>
      rw [floatsInBlock, allFinite_append] at finite
      obtain ⟨first, rest⟩ := depth_array_cons bound
      obtain ⟨limit, rfl⟩ := exists_step first
      have valueBack := decodeExpr_encodeExpr value finite.1 (depth_le_of_tagged first)
      exact list?_cons (by simp [decodeStmt, tagged, tag?, valueBack])
        (decodeStmts_encodeStmts block finite.2 rest)

end

/-! ## Patterns -/

theorem encodePattern_ne_null (p : Pattern) : encodePattern p ≠ .null := by
  cases p <;> nofun

mutual

/-- A pattern comes back from its JSON value. -/
theorem decodePattern_encodePattern (p : Pattern) (finite : AllFinite p.floats) {limit : Nat}
    (bound : (encodePattern p).depth ≤ limit) : decodePattern limit (encodePattern p) = some p := by
  obtain ⟨limit, rfl⟩ := exists_step bound
  cases p with
  | wildcard => rfl
  | bind slot | same slot => simp [encodePattern, decodePattern, tagged, tag?]
  | literal value => simp [encodePattern, decodePattern, tagged, tag?, decodeLiteral_encode finite]
  | tuple items =>
      have itemsBack := decodePatterns_encodePatterns items finite (depth_le_of_tagged bound)
      simp [encodePattern, decodePattern, tagged, tag?, itemsBack]
  | list items =>
      have inside := members_bound bound
      simp only [List.forall_mem_cons] at inside
      have itemsBack := decodePatterns_encodePatterns items finite inside.1
      simp [encodePattern, decodePattern, tagged, tag?, option?, itemsBack]
  | listTail items tail =>
      have inside := members_bound bound
      simp only [List.forall_mem_cons] at inside
      rw [Pattern.floats, allFinite_append] at finite
      have itemsBack := decodePatterns_encodePatterns items finite.1 inside.1
      have tailBack : option? (decodePattern limit) (encodePattern tail) = some (some tail) :=
        option?_encode (encodePattern_ne_null tail)
          (decodePattern_encodePattern tail finite.2 inside.2.1)
      simp [encodePattern, decodePattern, tagged, tag?, itemsBack, tailBack]
  | map entries =>
      have entriesBack :=
        decodePatternEntries_encodePatternEntries entries finite (depth_le_of_tagged bound)
      simp [encodePattern, decodePattern, tagged, tag?, entriesBack]

theorem decodePatterns_encodePatterns (ps : List Pattern) (finite : AllFinite (floatsInPatterns ps))
    {limit : Nat} (bound : (Json.array (encodePatterns ps)).depth ≤ limit) :
    list? (decodePattern limit) (.array (encodePatterns ps)) = some ps := by
  match ps with
  | [] => rfl
  | p :: ps =>
      rw [floatsInPatterns, allFinite_append] at finite
      obtain ⟨first, rest⟩ := depth_array_cons bound
      exact list?_cons (decodePattern_encodePattern p finite.1 first)
        (decodePatterns_encodePatterns ps finite.2 rest)

theorem decodePatternEntries_encodePatternEntries (entries : List (Literal × Pattern))
    (finite : AllFinite (floatsInPatternEntries entries)) {limit : Nat}
    (bound : (Json.array (encodePatternEntries entries)).depth ≤ limit) :
    list? (pair? decodeLiteral (decodePattern limit)) (.array (encodePatternEntries entries))
      = some entries := by
  match entries with
  | [] => rfl
  | (key, p) :: entries =>
      rw [floatsInPatternEntries, allFinite_append, allFinite_append] at finite
      obtain ⟨first, rest⟩ := depth_array_cons bound
      have inside := depth_le_of_array first
      simp only [List.forall_mem_cons] at inside
      have patternBack := decodePattern_encodePattern p finite.2.1 inside.2.1
      exact list?_cons (by simp [pair?, decodeLiteral_encode finite.1, patternBack])
        (decodePatternEntries_encodePatternEntries entries finite.2.2 rest)

end

/-! ## Declarations -/

theorem decodeType_encodeType (type : TypeExpr) : decodeType (encodeType type) = some type := by
  cases type with
  | base b =>
      change (named? BaseType.name BaseType.all (.text b.name)).map TypeExpr.base = _
      rw [named?_baseType]
      rfl
  | external | selfType | var => rfl

theorem decodeConstraint_encodeConstraint (c : TypeConstraint) :
    decodeConstraint (encodeConstraint c) = some c := by
  simp [encodeConstraint, decodeConstraint, text?, decodeType_encodeType]

theorem decodeSignature_encode (s : Signature) : decodeSignature s.encode = some s := by
  have name : s.encode.get? "name" Json.text? = some s.name := rfl
  have params : s.encode.get? "params" (list? decodeType) = some s.params :=
    list?_ofList fun type _ => decodeType_encodeType type
  have returnType : s.encode.get? "return_type" decodeType = some s.returnType :=
    decodeType_encodeType s.returnType
  have constraints : s.encode.get? "constraints" (list? decodeConstraint) = some s.constraints :=
    list?_ofList fun c _ => decodeConstraint_encodeConstraint c
  rw [decodeSignature, name, params, returnType, constraints]
  rfl

theorem decodeWholeExpr_encodeExpr {e : Expr} (finite : AllFinite e.floats) :
    decodeWholeExpr (encodeExpr e) = some e :=
  decodeExpr_encodeExpr e finite (Nat.le_refl _)

/-- An expression that may be missing comes back. -/
theorem decodeOption_encodeOption {e : Option Expr} (finite : AllFinite (optionFloats e)) :
    option? decodeWholeExpr (.ofOption encodeExpr e) = some e := by
  refine option?_ofOption (fun e _ => encodeExpr_ne_null e) fun written here => ?_
  subst here
  exact decodeWholeExpr_encodeExpr finite

theorem decodeForwardParam_encode {p : ForwardParam} (finite : AllFinite (optionFloats p.default)) :
    decodeForwardParam p.encode = some p := by
  have name : p.encode.get? "name" Json.text? = some p.name := rfl
  have slot : p.encode.get? "binding" Json.nat? = some p.slot := nat?_nat p.slot
  have default : option? decodeWholeExpr (p.encode.memberOrNull "default") = some p.default :=
    decodeOption_encodeOption finite
  rw [decodeForwardParam, name, slot, default]
  rfl

theorem decodeForward_encode {f : Forward}
    (finite : ∀ param ∈ f.params, AllFinite (optionFloats param.default)) :
    decodeForward f.encode = some f := by
  have name : f.encode.get? "name" Json.text? = some f.name := rfl
  have params : f.encode.get? "params" (list? decodeForwardParam) = some f.params :=
    list?_ofList fun param member => decodeForwardParam_encode (finite param member)
  rw [decodeForward, name, params]
  rfl

theorem decodeBlock_encodeBlock {block : Block} (finite : AllFinite (floatsInBlock block)) :
    decodeBlock (encodeBlock block) = some block := by
  have inside := depth_le_of_object (Nat.le_refl (encodeBlock block).depth)
  simp only [List.forall_mem_cons] at inside
  have stmts := decodeStmts_encodeStmts block finite inside.1
  rw [decodeBlock]
  simpa [encodeBlock] using stmts

theorem floatsInPatterns_eq_flatMap (ps : List Pattern) :
    floatsInPatterns ps = ps.flatMap Pattern.floats := by
  induction ps with
  | nil => rfl
  | cons p ps ih => rw [floatsInPatterns, ih, List.flatMap_cons]

theorem decodeImplementation_encode {i : Implementation} (finite : AllFinite i.floats) :
    decodeImplementation i.encode = some i := by
  rw [Implementation.floats, allFinite_append, allFinite_append, floatsInPatterns_eq_flatMap] at finite
  have patterns : i.encode.get? "patterns" (list? decodeWholePattern) = some i.patterns := by
    refine list?_ofList fun p member => decodePattern_encodePattern p ?_ (Nat.le_refl _)
    exact fun x here => finite.1 x (List.mem_flatMap.mpr ⟨p, member, here⟩)
  have guard : option? decodeWholeExpr (i.encode.memberOrNull "guard") = some i.guard :=
    decodeOption_encodeOption finite.2.1
  have body : i.encode.get? "body" decodeBlock = some i.body := decodeBlock_encodeBlock finite.2.2
  rw [decodeImplementation, patterns, guard, body]
  rfl

theorem decodeBindingKind_encode (kind : BindingKind) : decodeBindingKind kind.encode = some kind := by
  cases kind with
  | param position => simp [BindingKind.encode, decodeBindingKind, tagged, tag?]
  | pattern | bound => rfl

theorem decodeBindings_encodeBindings (bindings : Bindings) :
    get? "bindings" (list? decodeBinding) (encodeBindings bindings) = some bindings := by
  rw [encodeBindings, get?_self]
  refine list?_ofList fun b _ => ?_
  simp [decodeBinding, text?, decodeBindingKind_encode]

theorem decodeDeclaration_encode {d : Declaration} (finite : AllFinite d.floats) :
    decodeDeclaration d.encode = some d := by
  rw [Declaration.floats, allFinite_append] at finite
  have name : d.encode.get? "name" Json.text? = some d.name := rfl
  have signature : d.encode.get? "signature" decodeSignature = some d.signature :=
    decodeSignature_encode d.signature
  have forward : d.encode.get? "forward" decodeForward = some d.forward :=
    decodeForward_encode fun param member x here =>
      finite.1 x (List.mem_flatMap.mpr ⟨param, member, here⟩)
  have implementations :
      d.encode.get? "implementations" (list? decodeImplementation) = some d.implementations :=
    list?_ofList fun i member => decodeImplementation_encode fun x here =>
      finite.2 x (List.mem_flatMap.mpr ⟨i, member, here⟩)
  have bindings : d.encode.get? "bindings" (Json.get? "bindings" (list? decodeBinding))
      = some d.bindings := decodeBindings_encodeBindings d.bindings
  rw [decodeDeclaration, name, signature, forward, implementations, bindings]
  rfl

/-! ## Programs -/

theorem decodeRecordDef_encode (r : RecordDef) : decodeRecordDef r.encode = some r := by
  have name : r.encode.get? "name" Json.text? = some r.name := rfl
  have fields : r.encode.get? "fields" (list? decodeRecordField) = some r.fields :=
    list?_ofList fun _ _ => rfl
  rw [decodeRecordDef, name, fields]
  rfl

theorem decodeModule_encode {m : ProgramModule} (finite : ∀ d ∈ m.functions, AllFinite d.floats) :
    decodeModule m.encode = some m := by
  have name : m.encode.get? "name" Json.text? = some m.name := rfl
  have functions : m.encode.get? "functions" (list? decodeDeclaration) = some m.functions :=
    list?_ofList fun d member => decodeDeclaration_encode (finite d member)
  have record : option? decodeRecordDef (m.encode.memberOrNull "record") = some m.record :=
    option?_ofOption (fun _ _ => nofun) fun r _ => decodeRecordDef_encode r
  rw [decodeModule, name, functions, record]
  rfl

/-- A program comes back from its JSON value. -/
theorem Program.decode?_encode {p : Program} (finite : AllFinite p.floats) :
    Program.decode? p.encode = some p := by
  have modules : p.encode.get? "modules" (list? decodeModule) = some p.modules := by
    refine list?_ofList fun m inProgram => decodeModule_encode fun d inModule x here => ?_
    exact finite x (List.mem_flatMap.mpr ⟨m, inProgram, List.mem_flatMap.mpr ⟨d, inModule, here⟩⟩)
  rw [Program.decode?, modules]
  rfl

end Core

/-! ## Main statement -/

namespace Machine

open Clausal.Core (AllFinite)

/-- What a call gives on the machine of a program, or why there is no such machine. -/
def outcome (program : Core.Program) (registry : Registry) (limit : Nat) (owner name : String)
    (args : List Value) : Except Fault Value := do
  let machine ← build program registry limit
  machine.call owner name args

/-- The JSON value of a program loses nothing: it decodes to the program itself, so that every call
has the same outcome before and after. -/
theorem decoded_program_runs_alike {program : Core.Program} (finite : AllFinite program.floats) :
    Core.Program.decode? program.encode = some program ∧
      ∀ (registry : Registry) (limit : Nat) (owner name : String) (args : List Value),
        ((Core.Program.decode? program.encode).map fun decoded =>
          outcome decoded registry limit owner name args)
        = some (outcome program registry limit owner name args) := by
  have back := Core.Program.decode?_encode finite
  refine ⟨back, ?_⟩
  intro registry limit owner name args
  rw [back]
  rfl

/-- A struct, and a function with a default and clauses that test floats. -/
def priceFile : Surface.SourceFile :=
  let s := Span.synthetic
  let name := Surface.Expr.ident s
  let clause (patterns : List Surface.Expr) (body : Surface.Expr) : Surface.Stmt :=
    .expr (.clause s (.paren s patterns) body)
  let reduced : Surface.FunctionDef :=
    { name := "reduced", returnType := none, constraints := [], span := s
      params := [⟨"prices", name "list", s⟩, ⟨"rate", .defaulted s (name "float") (.float s 0.5), s⟩]
      body :=
        [clause [.list s [], name "_"] (.list s []),
         clause [.listTail s [.float s 0.25] (name "_"), name "_"] (.atom s "cheap"),
         clause [.listTail s [name "first"] (name "rest"), name "rate"]
           (.listTail s [.binary s (.strict .mul) (name "first") (name "rate")]
             (.call s (name "reduced") [name "rest", name "rate"]))] }
  { items := [.block ⟨"Price", [.struct ⟨[⟨"amount", name "Amount", s⟩], s⟩, .function reduced], s⟩]
    span := s }

theorem decoded_program_runs_alike_priceFile :
    ∃ program, Compile.compileFile "Main" priceFile = .ok program ∧
      program.floats = [0.5, 0.25] ∧ AllFinite program.floats ∧
      Core.Program.decode? program.encode = some program ∧
      ((Core.Program.decode? program.encode).map fun decoded =>
          outcome decoded [("Amount", .floatRange (some 0.0) none)] 4 "Price" "reduced"
            [.list [.float 0.25]])
        = some (.ok (.atom "cheap")) := by
  have compiled : ∃ program, Compile.compileFile "Main" priceFile = .ok program ∧
      program.floats = [0.5, 0.25] ∧
      outcome program [("Amount", .floatRange (some 0.0) none)] 4 "Price" "reduced"
        [.list [.float 0.25]] = .ok (.atom "cheap") :=
    ⟨_, rfl, rfl, by with_unfolding_all rfl⟩
  rcases compiled with ⟨program, made, floats, called⟩
  have finite : AllFinite program.floats := by
    rw [floats]
    unfold AllFinite
    decide
  have alike := decoded_program_runs_alike finite
  exact ⟨program, made, floats, finite, alike.1, (alike.2 _ _ _ _ _).trans (congrArg some called)⟩

end Machine

end Clausal
