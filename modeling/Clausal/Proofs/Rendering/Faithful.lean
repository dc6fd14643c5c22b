import Clausal.Proofs.Rendering.Shown
import Clausal.Proofs.Syntax.Legible

/-!
# Shown expressions mean what they show

The text of an expression reads as an expression, which is lowered in the same scope to one with the same
value.  Lowering drops the parentheses of a source, and showing puts in those that the table of operators
asks for; but some expressions are shown as something else, and are left out here (`Core.Expr.Faithful`):

* a point behind an operator form or a negative number takes only its last operand: `(a + b).name` is shown
  as `a + b.name`;
* an atom that is a keyword is no key before a colon: `%{:if => a}` is shown as `%{if: a}`;
* a text with characters that are shown by their code points has an escape that is not read;
* a float that is shown without a point is no float: `1.0e16` is shown as `1e16`, and a number beyond the
  range of floats as `inf`.

Main statement: `renderExpr_faithful`.
-/

namespace Clausal

open Token (Kind)
open Clausal.Core (Bindings renderExpr)
open Surface (Expr Word Spelled WrittenEntry)
open Surface.Word (fixed CutsBefore)

/-! ## Expressions that are shown as they are -/

def Surface.Expr.isConditional : Expr → Bool
  | cond .. => true
  | _ => false

namespace Core

/-- A literal whose text can be read. -/
def Literal.Faithful : Literal → Prop
  | text s => Value.PlainText s
  | float x => '.' ∈ (Decimal.literal.render x).toList
  | _ => True

/-- Nothing in the expression is shown as something else. -/
inductive Expr.Faithful : Core.Expr → Prop where
  | literal {value : Literal} : value.Faithful → Faithful (.literal value)
  | var (slot : Slot) : Faithful (.var slot)
  | unary (op : UnaryOp) {e : Core.Expr} : Faithful e → Faithful (.unary op e)
  | binary (op : BinaryOp) {left right : Core.Expr} : Faithful left → Faithful right →
      Faithful (.binary op left right)
  | call (callee : Callee) {args : List Core.Expr} : (∀ arg ∈ args, Faithful arg) →
      Faithful (.call callee args)
  | list {items : List Core.Expr} : (∀ item ∈ items, Faithful item) → Faithful (.list items)
  | listTail {items : List Core.Expr} {tail : Core.Expr} : (∀ item ∈ items, Faithful item) →
      Faithful tail → Faithful (.listTail items tail)
  | tuple {items : List Core.Expr} : (∀ item ∈ items, Faithful item) → Faithful (.tuple items)
  | map {entries : List (Core.Expr × Core.Expr)} :
      (∀ entry ∈ entries, ∀ name, entry.1 = .literal (.atom name) → Token.NoKeyword name) →
      (∀ entry ∈ entries, Faithful entry.1) → (∀ entry ∈ entries, Faithful entry.2) →
      Faithful (.map entries)
  | field {target : Core.Expr} (name : String) : target.StandsAlone → Faithful target →
      Faithful (.field target name)

end Core

namespace Lowering

/-! ## Leaves -/

namespace Shown

variable {names : Names} {bindings : Bindings}

theorem integer {n : Int} (range : n.natAbs ≤ Surface.Reader.maxInteger) :
    ∃ t words, Shown names bindings (.literal (.int n)) t words := by
  refine ⟨.integer .synthetic n, (Value.int n).words, ?_, Value.cuts_int n,
    Lowers.denotes fun table => rfl, rfl, fun alone => ?_⟩
  · have spelled := @Expr.spelled_of_isLeaf (.integer .synthetic n) rfl range
    cases n with
    | ofNat m =>
        have positive : ¬ Int.ofNat m < 0 := Int.not_lt.mpr (Int.natCast_nonneg m)
        rwa [Expr.spell, if_neg positive] at spelled
    | negSucc m => simpa [Expr.spell, Value.words] using spelled
  · cases n with
    | ofNat m => simp [Value.words, Word.Unsigned, Word.integer]
    | negSucc m =>
        -- A negative number begins with its sign.
        have sign : (Core.Literal.int (.negSucc m)).render = "-" ++ (m + 1).repr := rfl
        rw [Core.Expr.StandsAlone, sign] at alone
        simp at alone

/-- A float that is shown with a point is read back, with its sign folded into it. -/
theorem float {x : Float} (point : '.' ∈ (Decimal.literal.render x).toList) :
    ∃ t words, Shown names bindings (.literal (.float x)) t words := by
  obtain ⟨negative, word, y, isFloat, shown, lexes, read, rfl⟩ := Decimal.exists_word_of_point point
  have leaf : Spelled (.float .synthetic y) [word] := by
    refine .leaf fun span => ⟨.float span y, ?_, rfl⟩
    simp only [Surface.Reader.leaf?, isFloat, read]
  have cuts := Word.cutsBefore_word lexes
  -- A negative float is shown with a sign in front, which reading folds into it.
  cases negative with
  | false =>
      refine ⟨_, _, leaf, ?_, Lowers.denotes fun table => rfl, rfl,
        fun _ => by simp [Word.Unsigned, isFloat]⟩
      rw [renderExpr, Core.Literal.render, shown]
      simpa [Decimal.signText] using cuts
  | true =>
      refine ⟨_, _, @Spelled.minus .synthetic _ _ rfl leaf, ?_, Lowers.denotes fun table => rfl, rfl,
        fun alone => ?_⟩
      · rw [renderExpr, Core.Literal.render, shown]
        have whole := Word.cutsBefore_minus cuts leaf.starts
        simpa [Decimal.signText] using whole
      · rw [Core.Expr.StandsAlone, Core.Literal.render, shown] at alone
        simp [Decimal.signText] at alone

theorem text {s : String} (plain : Value.PlainText s) :
    ∃ t words, Shown names bindings (.literal (.text s)) t words := by
  refine ⟨.text .synthetic s, [.quoted s], ?_, ?_, Lowers.denotes fun table => rfl, rfl,
    fun _ => by simp [Word.Unsigned, Word.quoted]⟩
  · have spelled := @Expr.spelled_of_isLeaf (.text .synthetic s) rfl trivial
    simpa [Expr.spell] using spelled
  · intro rest words _ cuts
    rw [renderExpr, Core.Literal.render, Token.quoted_eq plain]
    exact .word (Word.lexes_quoted s) trivial cuts

theorem atom {name : String} (isName : Token.IsName name.toList) :
    ∃ t words, Shown names bindings (.literal (.atom name)) t words := by
  refine ⟨.atom .synthetic name, [.atom name], ?_, ?_, Lowers.denotes fun table => rfl, rfl,
    fun _ => by simp [Word.Unsigned, Word.atom]⟩
  · have spelled := @Expr.spelled_of_isLeaf (.atom .synthetic name) rfl trivial
    simpa [Expr.spell] using spelled
  · have cuts := Word.cutsBefore_word (Word.lexes_atom isName)
    simpa [renderExpr, Core.Literal.render, Word.atom] using cuts

theorem bool (b : Bool) : ∃ t words, Shown names bindings (.literal (.bool b)) t words := by
  cases b with
  | true =>
      exact ⟨.bool .synthetic true, [fixed .kwTrue], Expr.spelled_of_isLeaf rfl trivial,
        @Word.cutsBefore_keyword .kwTrue rfl "true" rfl, Lowers.denotes fun table => rfl, rfl,
        fun _ => by simp [Word.Unsigned, fixed]⟩
  | false =>
      exact ⟨.bool .synthetic false, [fixed .kwFalse], Expr.spelled_of_isLeaf rfl trivial,
        @Word.cutsBefore_keyword .kwFalse rfl "false" rfl, Lowers.denotes fun table => rfl, rfl,
        fun _ => by simp [Word.Unsigned, fixed]⟩

theorem nil : ∃ t words, Shown names bindings (.literal .nil) t words :=
  ⟨.nil .synthetic, [fixed .kwNil], Expr.spelled_of_isLeaf rfl trivial,
    @Word.cutsBefore_keyword .kwNil rfl "nil" rfl, Lowers.denotes fun table => rfl, rfl,
    fun _ => by simp [Word.Unsigned, fixed]⟩

/-- A variable is shown by the name that it is found by. -/
theorem var {name : String} {slot : Core.Slot} (found : names.lookup name = some slot)
    (shown : bindings.nameOf slot = name) (identifier : Token.IsIdentifier name) :
    ∃ t words, Shown names bindings (.var slot) t words := by
  refine ⟨.ident .synthetic name, [.ident name], ?_, ?_, Lowers.denotes fun table => ?_, rfl,
    fun _ => by simp [Word.Unsigned, Word.ident]⟩
  · have spelled := @Expr.spelled_of_isLeaf (.ident .synthetic name) rfl trivial
    simpa [Expr.spell] using spelled
  · rw [renderExpr, shown]
    exact Word.cutsBefore_word (Word.lexes_ident identifier)
  · rw [lowerExpr, found]
    rfl

end Shown

/-! ## Whole expressions -/

/-- The table of bindings has every visible variable at its slot. -/
def Labelled (names : Names) (bindings : Bindings) : Prop :=
  ∀ entry ∈ names, ∃ kind, bindings[entry.2]? = some ⟨entry.1, kind⟩

theorem Labelled.nil (bindings : Bindings) : Labelled [] bindings := List.forall_mem_nil _

/-- What is bound later leaves the visible variables where they are. -/
theorem Labelled.grows {names : Names} {bindings bindings' : Bindings} (labelled : Labelled names bindings)
    (grown : bindings <+: bindings') : Labelled names bindings' := by
  intro entry member
  obtain ⟨kind, found⟩ := labelled entry member
  obtain ⟨more, rfl⟩ := grown
  have inside : entry.2 < bindings.length := (List.getElem?_eq_some_iff.mp found).1
  exact ⟨kind, (List.getElem?_append_left inside).trans found⟩

/-- Declaring a variable makes it visible at its own slot. -/
theorem Labelled.declare {names : Names} {bindings bindings' : Bindings} {name : String}
    {kind : Core.BindingKind} {slot : Core.Slot} (labelled : Labelled names bindings)
    (declared : Lowering.declare name kind bindings = .ok (slot, bindings')) :
    Labelled ((name, slot) :: names) bindings' := by
  cases declared
  refine List.forall_mem_cons.mpr ⟨⟨kind, by simp⟩, labelled.grows (List.prefix_append _ _)⟩

/-- A visible variable is shown by its name. -/
theorem Labelled.nameOf {names : Names} {bindings : Bindings} {name : String} {slot : Core.Slot}
    (labelled : Labelled names bindings) (found : names.lookup name = some slot) :
    bindings.nameOf slot = name := by
  obtain ⟨before, after, shape, -⟩ := List.lookup_eq_some_iff.mp found
  obtain ⟨kind, there⟩ := labelled (name, slot) (by simp [shape])
  simp [Core.Bindings.nameOf, there]

/-- What a node is like whose code can be shown: it can be read and is no conditional. -/
def Showable (e : Expr) : Prop := e.isConditional = false ∧ e.Legible

/-- The name of an atom comes from the tree. -/
theorem isName_of_addressed {names : Names} {name : String} (s : Expr) {table table' : Bindings}
    (addressed : AddressedExpr names table s (.literal (.atom name)) table')
    (showable : s.Throughout Showable) : Token.IsName name.toList := by
  match s with
  | .atom _ _ =>
      cases addressed
      exact showable.root.2
  | .paren _ [single] =>
      cases addressed with
      | paren inside => exact isName_of_addressed single inside (showable.part (by simp [Expr.parts]))

section Trees

variable {names : Names} {bindings : Bindings}

mutual

/-- The induction is over the tree; its addressing has the scope at every variable and callee. -/
theorem exists_shown (labelled : Labelled names bindings) (s : Expr) {table table' : Bindings}
    {e : Core.Expr} (addressed : AddressedExpr names table s e table')
    (showable : s.Throughout Showable) (faithful : e.Faithful) :
    ∃ t words, Shown names bindings e t words := by
  have root := showable.root.2
  cases s with
  | integer =>
      cases addressed
      exact Shown.integer root
  | float =>
      cases addressed
      cases faithful with
      | literal point => exact Shown.float point
  | text =>
      cases addressed
      cases faithful with
      | literal plain => exact Shown.text plain
  | atom =>
      cases addressed
      exact Shown.atom root
  | bool =>
      cases addressed
      exact Shown.bool _
  | nil =>
      cases addressed
      exact Shown.nil
  | ident _ name =>
      cases addressed with
      | ident found =>
          exact Shown.var found (labelled.nameOf found) root
  | unary _ op operand =>
      cases addressed with
      | unary below =>
          cases faithful with
          | unary _ inside =>
              obtain ⟨t, words, inner⟩ := exists_shown labelled operand below
                (showable.part (by simp [Expr.parts])) inside
              exact inner.unary op
  | binary _ op left right =>
      cases addressed with
      | binary onLeft onRight =>
          cases faithful with
          | binary _ first second =>
              obtain ⟨t₁, before, shownLeft⟩ := exists_shown labelled left onLeft
                (showable.part (by simp [Expr.parts])) first
              obtain ⟨t₂, after, shownRight⟩ := exists_shown labelled right onRight
                (showable.part (by simp [Expr.parts])) second
              exact shownLeft.binary op shownRight
  | call _ callee args =>
      cases addressed with
      | call resolved below =>
          cases faithful with
          | call _ inside =>
              obtain ⟨rows, rfl, each⟩ := exists_shown_row labelled args below
                (fun s member => showable.part (by simp [Expr.parts, member])) inside
              have writable := (showable.mono fun _ showable => showable.2).writable
              exact Shown.call each resolved (writable.part List.mem_cons_self)
  | field _ target name =>
      cases addressed with
      | field below =>
          cases faithful with
          | field _ alone inside =>
              obtain ⟨t, words, inner⟩ := exists_shown labelled target below
                (showable.part (by simp [Expr.parts])) inside
              exact inner.field alone root
  | paren _ items =>
      match items with
      | [single] =>
          cases addressed with
          | paren below =>
              exact exists_shown labelled single below (showable.part (by simp [Expr.parts])) faithful
  | list _ items =>
      cases addressed with
      | list below =>
          cases faithful with
          | list inside =>
              obtain ⟨rows, rfl, each⟩ := exists_shown_row labelled items below
                (fun s member => showable.part (by simpa [Expr.parts] using member)) inside
              exact Shown.list each
  | listTail _ items tail =>
      cases addressed with
      | listTail below behind =>
          cases faithful with
          | listTail inside last =>
              obtain ⟨rows, rfl, each⟩ := exists_shown_row labelled items below
                (fun s member => showable.part (by simp [Expr.parts, member])) inside
              obtain ⟨t, words, shownTail⟩ := exists_shown labelled tail behind
                (showable.part (by simp [Expr.parts])) last
              refine Shown.listTail each ?_ shownTail
              -- In front of a tail stands at least one item.
              rintro rfl
              cases below
              exact root rfl
  | tuple _ items =>
      cases addressed with
      | tuple below =>
          cases faithful with
          | tuple inside =>
              obtain ⟨rows, rfl, each⟩ := exists_shown_row labelled items below
                (fun s member => showable.part (by simpa [Expr.parts] using member)) inside
              exact Shown.tuple each
  | map _ entries =>
      cases addressed with
      | map below =>
          cases faithful with
          | map fresh keys values =>
              obtain ⟨rows, rfl, each⟩ := exists_shown_entries labelled entries below
                (fun entry member =>
                  ⟨showable.part (List.mem_flatMap.mpr ⟨entry, member, by simp⟩),
                    showable.part (List.mem_flatMap.mpr ⟨entry, member, by simp⟩)⟩)
                fresh keys values
              exact Shown.map each
  | cond => cases showable.root.1
  | clause | guarded | defaulted | index => cases addressed

theorem exists_shown_row (labelled : Labelled names bindings) (ss : List Expr) {table table' : Bindings}
    {es : List Core.Expr} (addressed : AddressedExprs names table ss es table')
    (showable : ∀ s ∈ ss, s.Throughout Showable) (faithful : ∀ e ∈ es, e.Faithful) :
    ∃ rows : List (Core.Expr × Expr × List Word), rows.map Prod.fst = es ∧
      ∀ row ∈ rows, Shown names bindings row.1 row.2.1 row.2.2 := by
  cases ss with
  | nil =>
      cases addressed
      exact ⟨[], rfl, List.forall_mem_nil _⟩
  | cons s ss =>
      cases addressed with
      | cons head tail =>
          obtain ⟨first, others⟩ := List.forall_mem_cons.mp showable
          obtain ⟨here, further⟩ := List.forall_mem_cons.mp faithful
          obtain ⟨t, words, shown⟩ := exists_shown labelled s head first here
          obtain ⟨rows, rfl, each⟩ := exists_shown_row labelled ss tail others further
          exact ⟨(_, t, words) :: rows, rfl, List.forall_mem_cons.mpr ⟨shown, each⟩⟩

theorem exists_shown_entries (labelled : Labelled names bindings) (ss : List (Expr × Expr))
    {table table' : Bindings} {es : List (Core.Expr × Core.Expr)}
    (addressed : AddressedEntries names table ss es table')
    (showable : ∀ s ∈ ss, s.1.Throughout Showable ∧ s.2.Throughout Showable)
    (fresh : ∀ e ∈ es, ∀ name, e.1 = .literal (.atom name) → Token.NoKeyword name)
    (keys : ∀ e ∈ es, e.1.Faithful) (values : ∀ e ∈ es, e.2.Faithful) :
    ∃ rows : List ((Core.Expr × Core.Expr) × WrittenEntry), rows.map Prod.fst = es ∧
      ∀ row ∈ rows, ShownEntry names bindings row.1 row.2 := by
  match ss with
  | [] =>
      cases addressed
      exact ⟨[], rfl, List.forall_mem_nil _⟩
  | (key, value) :: ss =>
      cases addressed with
      | @cons _ _ _ _ _ code _ _ _ _ _ onKey onValue tail =>
          obtain ⟨⟨keyShowable, valueShowable⟩, others⟩ := List.forall_mem_cons.mp showable
          obtain ⟨freshKey, freshOthers⟩ := List.forall_mem_cons.mp fresh
          obtain ⟨keyHere, keysFurther⟩ := List.forall_mem_cons.mp keys
          obtain ⟨valueHere, valuesFurther⟩ := List.forall_mem_cons.mp values
          obtain ⟨t₁, before, first⟩ := exists_shown labelled key onKey keyShowable keyHere
          obtain ⟨t₂, after, second⟩ := exists_shown labelled value onValue valueShowable valueHere
          obtain ⟨rows, rfl, each⟩ := exists_shown_entries labelled ss tail others freshOthers
            keysFurther valuesFurther
          -- An atom is shown by its name alone, any other key in front of an arrow.
          by_cases isAtom : ∃ name, code = .literal (.atom name)
          · obtain ⟨name, rfl⟩ := isAtom
            have identifier := Token.isIdentifier_of_noKeyword
              (isName_of_addressed key onKey keyShowable) (freshKey name rfl)
            exact ⟨(_, _) :: rows, rfl, List.forall_mem_cons.mpr ⟨second.named identifier, each⟩⟩
          · have plain : ∀ name, code ≠ .literal (.atom name) := not_exists.mp isAtom
            exact ⟨(_, _) :: rows, rfl, List.forall_mem_cons.mpr ⟨first.keyed second plain, each⟩⟩

end

end Trees

/-- The text of an expression means what the expression means.  Let a tree without conditionals be lowered
in a scope, and its code be shown with the bindings of the whole function.  Where nothing is shown as
something else, the text reads as an expression, which is lowered in the same scope, and the result has the
same value as the code in every frame and host, and fails exactly where it fails.  Every tree that is read
is legible (`Surface.legible_of_parseExpression`), and every scope that lowering makes is labelled
(`Labelled.declare`, `Labelled.grows`). -/
theorem renderExpr_faithful {names : Names} {table table' bindings : Bindings} {s : Expr} {e : Core.Expr}
    (legible : s.Throughout Expr.Legible) (unconditional : s.Throughout (·.isConditional = false))
    (labelled : Labelled names table) (lowered : lowerExpr names s table = .ok (e, table'))
    (whole : table' <+: bindings) (faithful : e.Faithful) :
    ∃ t e', Surface.parseExpression (renderExpr bindings e).toList = .ok t ∧
      (∀ table, lowerExpr names t table = .ok (e', table)) ∧
      ∀ (host : Machine.Host (Except Fault)) (frame : Machine.Frame) (result : Value × Machine.Frame),
        Machine.evalExpr host e' frame = .ok result ↔ Machine.evalExpr host e frame = .ok result := by
  have addressed := lowerExpr_addressed s lowered
  have shownAs := labelled.grows (addressed.grows.trans whole)
  obtain ⟨t, words, shown⟩ := exists_shown shownAs s addressed (unconditional.and legible) faithful
  have cuts := shown.cuts [] [] nofun .nil
  rw [List.append_nil, List.append_nil] at cuts
  obtain ⟨out, read, same⟩ := Surface.parseExpression_of_spelled (cuts.scanFrom _ 0) shown.spelled
  obtain ⟨e', lowers, alike⟩ := shown.denotes
  exact ⟨out, e', read, lowers_of_erase_eq same lowers, fun host frame result => alike host frame result⟩

/-- Two variables `a` and `b`, the second one innermost. -/
def pairScope : Names := [("b", 1), ("a", 0)]

def pairBindings : Bindings := [⟨"a", .param 0⟩, ⟨"b", .param 1⟩]

theorem labelled_pair : Labelled pairScope pairBindings :=
  ((Labelled.nil []).declare rfl).declare rfl

section Samples

variable {P : Expr → Prop}

theorem throughout_leaf {e : Expr} (none : e.parts = []) (root : P e) : e.Throughout P := by
  refine .node root ?_
  rw [none]
  exact List.forall_mem_nil _

theorem throughout_single {e part : Expr} (one : e.parts = [part]) (root : P e)
    (inside : part.Throughout P) : e.Throughout P := by
  refine .node root ?_
  rw [one]
  simpa using inside

theorem throughout_pair {e first second : Expr} (two : e.parts = [first, second]) (root : P e)
    (inFirst : first.Throughout P) (inSecond : second.Throughout P) : e.Throughout P := by
  refine .node root ?_
  rw [two]
  simpa using And.intro inFirst inSecond

end Samples

/-- `(a <> b) <> -(b - 1)`, which is shown with the parentheses of the second operand only. -/
def chain : Expr :=
  .binary ⟨0, 20, 1, 1⟩ (.strict .concat)
    (.paren ⟨0, 8, 1, 1⟩ [.binary ⟨1, 7, 1, 2⟩ (.strict .concat) (.ident ⟨1, 2, 1, 2⟩ "a")
      (.ident ⟨6, 7, 1, 7⟩ "b")])
    (.unary ⟨12, 20, 1, 13⟩ .neg (.paren ⟨13, 20, 1, 14⟩ [.binary ⟨14, 19, 1, 15⟩ (.strict .sub)
      (.ident ⟨14, 15, 1, 15⟩ "b") (.integer ⟨18, 19, 1, 19⟩ 1)]))

def chainCode : Core.Expr :=
  .binary (.strict .concat) (.binary (.strict .concat) (.var 0) (.var 1))
    (.unary .neg (.binary (.strict .sub) (.var 1) (.literal (.int 1))))

theorem renderExpr_faithful_chain :
    Surface.parseExpression "(a <> b) <> -(b - 1)".toList = .ok chain ∧
    lowerExpr pairScope chain pairBindings = .ok (chainCode, pairBindings) ∧
    renderExpr pairBindings chainCode = "a <> b <> -(b - 1)" ∧
    ∃ t e', Surface.parseExpression (renderExpr pairBindings chainCode).toList = .ok t ∧
      (∀ table, lowerExpr pairScope t table = .ok (e', table)) ∧
      ∀ (host : Machine.Host (Except Fault)) (frame : Machine.Frame) (result : Value × Machine.Frame),
        Machine.evalExpr host e' frame = .ok result ↔
          Machine.evalExpr host chainCode frame = .ok result := by
  have read : Surface.parseExpression "(a <> b) <> -(b - 1)".toList = .ok chain := by
    with_unfolding_all rfl
  have lowered : lowerExpr pairScope chain pairBindings = .ok (chainCode, pairBindings) := rfl
  have unconditional : chain.Throughout (·.isConditional = false) := by
    refine throughout_pair rfl rfl (throughout_single rfl rfl ?_)
      (throughout_single rfl rfl (throughout_single rfl rfl ?_))
    · exact throughout_pair rfl rfl (throughout_leaf rfl rfl) (throughout_leaf rfl rfl)
    · exact throughout_pair rfl rfl (throughout_leaf rfl rfl) (throughout_leaf rfl rfl)
  have faithful : chainCode.Faithful :=
    .binary _ (.binary _ (.var 0) (.var 1)) (.unary _ (.binary _ (.var 1) (.literal trivial)))
  refine ⟨read, lowered, by with_unfolding_all rfl, ?_⟩
  exact renderExpr_faithful (Surface.legible_of_parseExpression read) unconditional labelled_pair lowered
    List.prefix_rfl faithful

/-- `(a + b).name` -/
def sumName : Expr :=
  .field ⟨0, 12, 1, 1⟩
    (.paren ⟨0, 7, 1, 1⟩ [.binary ⟨1, 6, 1, 2⟩ (.strict .add) (.ident ⟨1, 2, 1, 2⟩ "a")
      (.ident ⟨5, 6, 1, 6⟩ "b")]) "name"

def sumNameCode : Core.Expr := .field (.binary (.strict .add) (.var 0) (.var 1)) "name"

/-- A field of a sum is shown as a sum with a field, which has a value where the field of the sum fails. -/
theorem renderExpr_misplaces_field :
    Surface.parseExpression "(a + b).name".toList = .ok sumName ∧ Labelled pairScope pairBindings ∧
    lowerExpr pairScope sumName pairBindings = .ok (sumNameCode, pairBindings) ∧
    ∃ t e', Surface.parseExpression (renderExpr pairBindings sumNameCode).toList = .ok t ∧
      lowerExpr pairScope t pairBindings = .ok (e', pairBindings) ∧
      ∃ frame : Machine.Frame, ∀ host : Machine.Host (Except Fault),
        Machine.evalExpr host e' frame = .ok (.int 3, frame) ∧
        ∀ result, Machine.evalExpr host sumNameCode frame ≠ .ok result := by
  have shown : renderExpr pairBindings sumNameCode = "a + b.name" := by with_unfolding_all rfl
  rw [shown]
  refine ⟨by with_unfolding_all rfl, labelled_pair, rfl,
    .binary ⟨0, 10, 1, 1⟩ (.strict .add) (.ident ⟨0, 1, 1, 1⟩ "a")
      (.field ⟨4, 10, 1, 5⟩ (.ident ⟨4, 5, 1, 5⟩ "b") "name"),
    .binary (.strict .add) (.var 0) (.field (.var 1) "name"), by with_unfolding_all rfl, rfl,
    [(0, .int 1), (1, .map [(.atom "name", .int 2)])],
    fun host => ⟨by with_unfolding_all rfl, fun result => nofun⟩⟩

end Lowering
end Clausal
