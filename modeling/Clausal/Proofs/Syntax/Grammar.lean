import Clausal.Surface.Expression

/-!
# Grouping and spelling of expressions

An expression needs parentheses exactly where its operators would otherwise group differently.
This file says so without reading any text:

* `Expr.Grouped` is the condition on one node: how tightly its operands bind, what a sign or a
  postfix form may stand on, what may be the key of a map;
* `Expr.Throughout` lifts a condition on nodes to whole trees, and `Expr.OperatorCorrect` is
  `Grouped` everywhere;
* `Expr.spell` lists the words of a tree from left to right, and `Expr.written` puts a space
  between each two of them;
* `Expr.erase` forgets where a tree was read.

The binding strength of the operators is the table `Kind.operator?`, and nothing else of the
reader is used here.
-/

namespace Clausal

namespace Token

/-- A letter or underscore, then letters, digits and underscores, and at most one mark. -/
def IsName (word : List Char) : Prop :=
  ∃ first body mark, word = first :: (body ++ mark) ∧ isNameStart first = true ∧
    (∀ c ∈ body, isNameChar c = true) ∧ mark.length ≤ 1 ∧ ∀ c ∈ mark, isNameMark c = true

/-- A name that is no keyword. -/
def IsIdentifier (name : String) : Prop :=
  IsName name.toList ∧ ∀ spelling ∈ Kind.spellings, spelling.2 ≠ name

/-- How one character of a quoted text is written. -/
def escape : Char → List Char
  | '\\' => ['\\', '\\']
  | '"' => ['\\', '"']
  | '\n' => ['\\', 'n']
  | '\t' => ['\\', 't']
  | '\r' => ['\\', 'r']
  | '\x00' => ['\\', '0']
  | c => [c]

end Token

namespace Surface

open Token (Kind)

/-- The token of an operator that joins two operands. -/
def operatorKind : BinaryOp → Kind
  | .strict .add => .plus
  | .strict .sub => .minus
  | .strict .mul => .star
  | .strict .div => .slash
  | .strict .less => .less
  | .strict .greater => .greater
  | .strict .lessEqual => .lessEqual
  | .strict .greaterEqual => .greaterEqual
  | .strict .equal => .equalEqual
  | .strict .notEqual => .notEqual
  | .strict .concat => .concat
  | .and => .kwAnd
  | .or => .kwOr

/-- The token of an operator before its operand. -/
def signKind : UnaryOp → Kind
  | .neg => .minus
  | .not => .kwNot

namespace Expr

/-! ## The nodes of a tree -/

/-- The operator of an infix form and its two operands. -/
def operands? : Expr → Option (Kind × Expr × Expr)
  | binary _ op left right => some (operatorKind op, left, right)
  | clause _ head body => some (.arrow, head, body)
  | guarded _ subject guard => some (.kwWhen, subject, guard)
  | defaulted _ inner value => some (.defaultArrow, inner, value)
  | _ => none

/-- Level and associativity of the operator of an infix form. -/
def binding? (e : Expr) : Option (Precedence × Associativity) :=
  e.operands?.bind fun form => form.1.operator?

/-- Primary and postfix forms.  A negative integer is written with a sign, so it is neither. -/
def isSimple : Expr → Bool
  | integer _ n => 0 ≤ n
  | unary .. | binary .. | clause .. | guarded .. | defaulted .. => false
  | _ => true

/-- Literals and names. -/
def isLeaf : Expr → Bool
  | integer .. | text .. | atom .. | bool .. | nil _ | ident .. => true
  | _ => false

def isInteger : Expr → Bool
  | integer .. => true
  | _ => false

/-- The forms whose grouping is described here: all but floats and conditionals. -/
def isCovered : Expr → Bool
  | float .. | cond .. => false
  | _ => true

/-- The trees directly inside a tree, from left to right; blocks are left out. -/
def parts : Expr → List Expr
  | unary _ _ e | field _ e _ => [e]
  | binary _ _ left right | clause _ left right | guarded _ left right
  | defaulted _ left right => [left, right]
  | call _ target args | index _ target args => target :: args
  | paren _ items | list _ items | tuple _ items => items
  | listTail _ items tail => items ++ [tail]
  | map _ entries => entries.flatMap fun entry => [entry.1, entry.2]
  | _ => []

/-- The operators at the root of a tree, if any, bind at least as tightly as `least`. -/
def Binds (least : Precedence) (e : Expr) : Prop :=
  ∀ inner ∈ e.binding?, least.level ≤ inner.1.level

/-- What may stand without parentheses on one side of an operator: a tree that binds tighter, or
one that binds equally tightly on the side to which the operator groups. -/
def Fits (side : Associativity) (level : Precedence) (assoc : Associativity) (e : Expr) : Prop :=
  ∀ inner ∈ e.binding?,
    level.level < inner.1.level ∨ inner.1.level = level.level ∧ assoc = side

/-- An operator with its operands: each of them fits on its side. -/
def Joined (kind : Kind) (left right : Expr) : Prop :=
  ∀ binding ∈ kind.operator?,
    left.Fits .left binding.1 binding.2 ∧ right.Fits .right binding.1 binding.2

/-- The root of a tree stands correctly over the trees directly inside it. -/
def Grouped : Expr → Prop
  | integer _ n => n.natAbs ≤ Reader.maxInteger
  | text .. | atom .. | bool .. | nil _ | ident .. | paren .. | list .. | tuple .. => True
  | unary _ op e => e.binding? = none ∧ ¬ (op = .neg ∧ e.isInteger)
  | binary _ op left right => Joined (operatorKind op) left right
  | clause _ head body => Joined .arrow head body
  | guarded _ subject guard => Joined .kwWhen subject guard
  | defaulted _ inner value => Joined .defaultArrow inner value
  | call _ target _ | index _ target _ | field _ target _ => target.isSimple
  | listTail _ items _ => items ≠ []
  | map _ entries => ∀ entry ∈ entries, entry.1.Binds .or
  | float .. | cond .. => False

/-- A condition that holds at every node of a tree. -/
inductive Throughout (P : Expr → Prop) : Expr → Prop where
  | node {e : Expr} : P e → (∀ part ∈ e.parts, Throughout P part) → Throughout P e

theorem Throughout.mono {P Q : Expr → Prop} {e : Expr} (h : e.Throughout P) (imp : ∀ e, P e → Q e) :
    e.Throughout Q := by
  induction h with
  | node root _ ih => exact .node (imp _ root) ih

theorem Throughout.and {P Q : Expr → Prop} {e : Expr} (first : e.Throughout P) (second : e.Throughout Q) :
    e.Throughout fun e => P e ∧ Q e := by
  induction first with
  | node root _ ih =>
      cases second with
      | node root' parts => exact .node ⟨root, root'⟩ fun part member => ih part member (parts part member)

theorem Throughout.root {P : Expr → Prop} {e : Expr} (h : e.Throughout P) : P e := by
  cases h with
  | node root _ => exact root

theorem Throughout.part {P : Expr → Prop} {e part : Expr} (h : e.Throughout P) (member : part ∈ e.parts) :
    part.Throughout P := by
  cases h with
  | node _ parts => exact parts part member

/-- The trees without floats and conditionals. -/
def InFragment (e : Expr) : Prop := e.Throughout (·.isCovered)

/-- The trees that need no further parentheses. -/
def OperatorCorrect (e : Expr) : Prop := e.Throughout Grouped

/-! ## Names -/

/-- The name at a node, if it has one, can be written there. -/
def Named : Expr → Prop
  | atom _ name => Token.IsName name.toList
  | ident _ name | field _ _ name => Token.IsIdentifier name
  | _ => True

/-- The trees all of whose names can be written. -/
def Writable (e : Expr) : Prop := e.Throughout Named

end Expr

/-! ## Words -/

/-- A token without its place. -/
structure Word where
  kind : Kind
  text : String
  deriving DecidableEq, Repr

namespace Word

/-- A keyword or sign. -/
def fixed (kind : Kind) : Word := ⟨kind, (Kind.spellings.lookup kind).getD ""⟩

def integer (n : Nat) : Word := ⟨.integer, n.repr⟩

def atom (name : String) : Word := ⟨.atom, String.ofList (':' :: name.toList)⟩

def ident (name : String) : Word := ⟨.identifier, name⟩

def quoted (text : String) : Word :=
  ⟨.quoted, String.ofList ('"' :: (text.toList.flatMap Token.escape ++ ['"']))⟩

/-- Rows of words with a comma between each two. -/
def separated : List (List Word) → List Word := List.intercalate [fixed .comma]

end Word

namespace Expr

open Word (fixed separated)

mutual

/-- The words of a tree from left to right.  Only covered forms have words. -/
def spell : Expr → List Word
  | integer _ n =>
      if n < 0 then [fixed .minus, .integer n.natAbs] else [.integer n.natAbs]
  | text _ s => [.quoted s]
  | atom _ name => [.atom name]
  | bool _ b => [fixed (if b then .kwTrue else .kwFalse)]
  | nil _ => [fixed .kwNil]
  | ident _ name => [.ident name]
  | unary _ op e => fixed (signKind op) :: e.spell
  | binary _ op left right => left.spell ++ fixed (operatorKind op) :: right.spell
  | clause _ head body => head.spell ++ fixed .arrow :: body.spell
  | guarded _ subject guard => subject.spell ++ fixed .kwWhen :: guard.spell
  | defaulted _ inner value => inner.spell ++ fixed .defaultArrow :: value.spell
  | call _ callee args =>
      callee.spell ++ fixed .leftParen :: (separated (spellEach args) ++ [fixed .rightParen])
  | index _ target args =>
      target.spell ++ fixed .leftBracket :: (separated (spellEach args) ++ [fixed .rightBracket])
  | field _ target name => target.spell ++ [fixed .dot, .ident name]
  | paren _ items => fixed .leftParen :: (separated (spellEach items) ++ [fixed .rightParen])
  | list _ items => fixed .leftBracket :: (separated (spellEach items) ++ [fixed .rightBracket])
  | listTail _ items tail =>
      fixed .leftBracket ::
        (separated (spellEach items) ++ fixed .pipe :: (tail.spell ++ [fixed .rightBracket]))
  | tuple _ items => fixed .leftBrace :: (separated (spellEach items) ++ [fixed .rightBrace])
  | map _ entries =>
      fixed .percentBrace :: (separated (spellEntries entries) ++ [fixed .rightBrace])
  | float .. | cond .. => []

def spellEach : List Expr → List (List Word)
  | [] => []
  | e :: es => e.spell :: spellEach es

def spellEntries : List (Expr × Expr) → List (List Word)
  | [] => []
  | (key, value) :: entries =>
      (key.spell ++ fixed .fatArrow :: value.spell) :: spellEntries entries

end

/-- The words of a tree with a space between each two. -/
def written (e : Expr) : List Char :=
  List.intercalate [' '] (e.spell.map (·.text.toList))

/-! ## Places -/

mutual

/-- The tree without the places it was read from. -/
def erase : Expr → Expr
  | integer _ n => integer .synthetic n
  | float _ x => float .synthetic x
  | text _ s => text .synthetic s
  | atom _ name => atom .synthetic name
  | bool _ b => bool .synthetic b
  | nil _ => nil .synthetic
  | ident _ name => ident .synthetic name
  | unary _ op e => unary .synthetic op e.erase
  | binary _ op left right => binary .synthetic op left.erase right.erase
  | clause _ head body => clause .synthetic head.erase body.erase
  | guarded _ subject guard => guarded .synthetic subject.erase guard.erase
  | defaulted _ inner value => defaulted .synthetic inner.erase value.erase
  | call _ callee args => call .synthetic callee.erase (eraseEach args)
  | index _ target args => index .synthetic target.erase (eraseEach args)
  | field _ target name => field .synthetic target.erase name
  | paren _ items => paren .synthetic (eraseEach items)
  | list _ items => list .synthetic (eraseEach items)
  | listTail _ items tail => listTail .synthetic (eraseEach items) tail.erase
  | tuple _ items => tuple .synthetic (eraseEach items)
  | map _ entries => map .synthetic (eraseEntries entries)
  | cond _ condition thenBlock elseBlock =>
      cond .synthetic condition.erase (eraseBlock thenBlock) (eraseBlock elseBlock)

def eraseEach : List Expr → List Expr
  | [] => []
  | e :: es => e.erase :: eraseEach es

def eraseEntries : List (Expr × Expr) → List (Expr × Expr)
  | [] => []
  | (key, value) :: entries => (key.erase, value.erase) :: eraseEntries entries

def eraseBlock : List Stmt → List Stmt
  | [] => []
  | .bind _ name value :: stmts => .bind .synthetic name value.erase :: eraseBlock stmts
  | .expr value :: stmts => .expr value.erase :: eraseBlock stmts

end

/-! ## Infix forms -/

section Operands

variable {e left right : Expr} {kind : Kind}

theorem spell_of_operands (h : e.operands? = some (kind, left, right)) :
    e.spell = left.spell ++ fixed kind :: right.spell := by
  cases e <;> cases h <;> rw [spell]

theorem parts_of_operands (h : e.operands? = some (kind, left, right)) :
    e.parts = [left, right] := by
  cases e <;> cases h <;> rfl

theorem grouped_iff_joined (h : e.operands? = some (kind, left, right)) :
    e.Grouped ↔ Joined kind left right := by
  cases e <;> cases h <;> rfl

theorem binding?_of_operands (h : e.operands? = some (kind, left, right)) :
    e.binding? = kind.operator? := by
  simp [binding?, h]

/-- A form without an operator at its root binds as tightly as any. -/
theorem binds_of_binding?_none {least : Precedence} (h : e.binding? = none) : e.Binds least := by
  intro inner member
  rw [h] at member
  cases member

/-- The token of an infix form is an operator. -/
theorem operator_of_operands (h : e.operands? = some (kind, left, right)) :
    ∃ binding, binding ∈ kind.operator? := by
  cases e <;> cases h
  case binary op =>
      rcases op with op | _ | _
      · cases op <;> exact ⟨_, rfl⟩
      · exact ⟨_, rfl⟩
      · exact ⟨_, rfl⟩
  all_goals exact ⟨_, rfl⟩

end Operands

/-! ## Postfix forms -/

/-- The tree that a postfix form stands on, and the words behind it. -/
def target? : Expr → Option (Expr × List Word)
  | call _ callee args =>
      some (callee, fixed .leftParen :: (separated (spellEach args) ++ [fixed .rightParen]))
  | index _ target args =>
      some (target, fixed .leftBracket :: (separated (spellEach args) ++ [fixed .rightBracket]))
  | field _ target name => some (target, [fixed .dot, .ident name])
  | _ => none

section Target

variable {e target : Expr} {words : List Word}

theorem spell_of_target (h : e.target? = some (target, words)) :
    e.spell = target.spell ++ words := by
  cases e <;> cases h <;> rw [spell]

theorem mem_parts_of_target (h : e.target? = some (target, words)) : target ∈ e.parts := by
  cases e <;> cases h <;> exact List.mem_cons_self

theorem grouped_iff_of_target (h : e.target? = some (target, words)) :
    e.Grouped ↔ target.isSimple = true := by
  cases e <;> cases h <;> rfl

end Target

/-! ## Rows of trees -/

theorem spellEach_eq_map (items : List Expr) : spellEach items = items.map spell := by
  induction items with
  | nil => rfl
  | cons e es ih => simp [spellEach, ih]

/-- The words of an entry of a map. -/
def spellEntry (entry : Expr × Expr) : List Word :=
  entry.1.spell ++ fixed .fatArrow :: entry.2.spell

theorem spellEntries_eq_map (entries : List (Expr × Expr)) :
    spellEntries entries = entries.map spellEntry := by
  induction entries with
  | nil => rfl
  | cons entry rest ih => simp [spellEntries, spellEntry, ih]

def eraseEntry (entry : Expr × Expr) : Expr × Expr := (entry.1.erase, entry.2.erase)

theorem eraseEntries_eq_map (entries : List (Expr × Expr)) :
    eraseEntries entries = entries.map eraseEntry := by
  induction entries with
  | nil => rfl
  | cons entry rest ih => simp [eraseEntries, eraseEntry, ih]

end Expr
end Surface
end Clausal
