import Clausal.Proofs.Syntax.Covering
import Clausal.Proofs.Syntax.Recovery

/-!
# The spans of a tree lie over its source text as the tree does

Functions, structs and modules cover the tokens that reading them took, as expressions do.  What a fault
leaves behind is passed like tokens of the file's own, so the items of a file come one after another in its
tokens.

Main statement: `spans_form_tree`.
-/

namespace Clausal
namespace Surface

open Token (Kind)

namespace Reader

/-! ## Names with a type -/

section Definitions

variable {layout : Layout} {text before : List Token} {elements : List Element} {c : Cursor} {limit : Nat}

/-- The type behind a name and a colon ends the form that the name begins. -/
theorem gives_annotation {α : Type} {node : α → Node} {form : Expr → Span → α} {least : Precedence}
    {target colon : Token} (kind : target.kind = .identifier)
    (parts : ∀ type span, (node (form type span)).parts = [.expr type])
    (opening : ∀ type span, (node (form type span)).opening = some .identifier)
    (closings : ∀ type span, (node (form type span)).closings = [none])
    (span : ∀ type span, (node (form type span)).span = span) :
    Gives layout text before [.own target, .own colon] c (do
      let type ← expressionAt layout limit least
      return form type (← spanFrom layout target.span.start))
      fun all a => (node a).Covers layout.lines (tokensAlong all) := by
  refine (reads_expressionAt layout text limit least).bind fun type c₁ run _ => ?_
  refine .spanned (by simp) (by simp [startOf]) (fun s => ?_) (fun s => ?_) (fun s => ?_) (span type)
  · simp [parts]
  · rw [opening, ← kind]
    rfl
  · rw [closings, lastKind_part]
    exact List.mem_singleton_self _

/-- A name, a colon and a type. -/
def annotated {α : Type} (layout : Layout) (limit : Nat) (what : String) (form : String → Expr → Span → α) :
    Reader α := do
  let target ← name layout what
  let _ ← expect layout .colon
  let type ← typeExpression layout limit
  return form target.text type (← spanFrom layout target.span.start)

theorem reads_annotated {α : Type} {what : String} {form : String → Expr → Span → α} {node : α → Node}
    (parts : ∀ text type span, (node (form text type span)).parts = [.expr type])
    (opening : ∀ text type span, (node (form text type span)).opening = some .identifier)
    (closings : ∀ text type span, (node (form text type span)).closings = [none])
    (span : ∀ text type span, (node (form text type span)).span = span) :
    Reads layout text (annotated layout limit what form) node := by
  intro before c
  refine .name fun target c₁ kind => .expect fun colon c₂ _ => ?_
  exact gives_annotation kind (parts target.text) (opening _) (closings _) (span _)

theorem reads_parameter : Reads layout text (parameter layout limit) .param := by
  intro before c
  refine .name fun target c₁ kind => .sees ?_
  split
  next colon =>
      refine .advance_seen colon fun c₂ sign _ => ?_
      exact gives_annotation kind (fun _ _ => rfl) (fun _ _ => rfl) (fun _ _ => rfl) fun _ _ => rfl
  next => exact gives_fail _

/-! ## Functions -/

theorem parameters_eq_row (rounds : Nat) (params : List Param) :
    parameters layout limit rounds params = row (parameter layout limit) .rightParen rounds params := by
  induction rounds generalizing params with
  | zero => rfl
  | succ rounds ih => simp only [parameters, row, ih]

theorem takes_parameters : Takes layout text (parameters layout limit limit [])
    fun all params => partsAlong all = params.map .param := by
  intro before c
  rw [parameters_eq_row]
  refine (gives_row reads_parameter.takes (by simp)).mono fun all params parts => ?_
  rw [parts, List.map_eq_flatMap]

/-- One constraint of a `where` list. -/
def constraint (layout : Layout) (limit : Nat) : Reader Constraint :=
  annotated layout limit "type variable" fun name bound span => { name, bound, span }

theorem constraints_succ (rounds : Nat) (found : List Constraint) :
    constraints layout limit (rounds + 1) found = (do
      skipNewlines
      let next ← constraint layout limit
      if ← sees .comma then
        advance
        constraints layout limit rounds (found ++ [next])
      else
        return found ++ [next]) := by
  simp only [constraints, constraint, annotated, bind_assoc, pure_bind]

theorem reads_constraint : Reads layout text (constraint layout limit) .constraint :=
  reads_annotated (fun _ _ _ => rfl) (fun _ _ _ => rfl) (fun _ _ _ => rfl) fun _ _ _ => rfl

theorem gives_constraints {rounds : Nat} {found : List Constraint}
    (sofar : partsAlong elements = found.map .constraint) :
    Gives layout text before elements c (constraints layout limit rounds found)
      fun all out => partsAlong all = out.map .constraint := by
  induction rounds generalizing found elements c with
  | zero => exact gives_exhausted
  | succ rounds ih =>
      rw [constraints_succ]
      refine .skipNewlines fun c₁ own => reads_constraint.bind fun next c₂ run _ => .sees ?_
      split
      next comma => exact .advance_seen comma fun c₃ token _ => ih (by simp [sofar])
      next => exact .pure (by simp [sofar])

/-- The body and the end of a function. -/
theorem gives_functionBody {start : Nat} {target : String} {params : List Param} {returnType : Option Expr}
    {found : List Constraint} (some : tokensAlong elements ≠ [])
    (begins : start = startOf (tokensAlong elements)) (first : firstKind elements = Option.some .kwDef)
    (inside : partsAlong elements =
      params.map .param ++ (returnType.toList.map .expr ++ found.map .constraint)) :
    Gives layout text before elements c (do
      let body ← block layout limit (expressionAt layout limit)
      return { name := target, params, returnType, constraints := found, body
               span := ← spanFrom layout start })
      fun all f => (Node.function f).Covers layout.lines (tokensAlong all) := by
  refine (takes_block (reads_expressionAt layout text limit)).bind fun body c₁ more ⟨stmts, last⟩ => ?_
  refine .spanned (by simp [some]) ?_ (fun s => ?_) (fun s => ?_) (fun s => ?_) fun _ => rfl
  · rw [startOf_along some, begins]
  · simp [inside, stmts, Node.parts]
  · rw [firstKind_append (ne_nil_of_tokensAlong some), first]
    rfl
  · rw [lastKind_append last]
    exact List.mem_singleton_self _

/-- The constraints of a function and what stands behind them. -/
theorem gives_functionEnd {start : Nat} {target : String} {params : List Param} {returnType : Option Expr}
    (some : tokensAlong elements ≠ []) (begins : start = startOf (tokensAlong elements))
    (first : firstKind elements = Option.some .kwDef)
    (inside : partsAlong elements = params.map .param ++ returnType.toList.map .expr) :
    Gives layout text before elements c (do
      let found ←
        if ← sees .kwWhere then do
          advance
          constraints layout limit limit []
        else
          pure []
      let body ← block layout limit (expressionAt layout limit)
      return { name := target, params, returnType, constraints := found, body
               span := ← spanFrom layout start })
      fun all f => (Node.function f).Covers layout.lines (tokensAlong all) := by
  refine .sees ?_
  -- With constraints or without, the row in front of the body has the parts of the head.
  split
  next bounded =>
      refine .advance_seen bounded fun c₁ token _ => ?_
      have all : Takes layout text (constraints layout limit limit [])
          fun all out => partsAlong all = out.map .constraint := fun _ _ => gives_constraints rfl
      refine all.bind fun found c₂ more bounds => gives_functionBody (by simp [some]) ?_ ?_ ?_
      · rw [List.append_assoc, startOf_along some, begins]
      · rw [List.append_assoc, firstKind_append (ne_nil_of_tokensAlong some), first]
      · simp [inside, bounds]
  next => exact .pure_bind (gives_functionBody some begins first (by simp [inside]))

theorem reads_functionDef : Reads layout text (functionDef layout limit) .function := by
  intro before c
  refine .expect fun token c₁ first => .name fun target c₂ _ => .expect fun opening c₃ _ => ?_
  refine takes_parameters.bind fun params c₄ more inside => .expect fun closing c₅ _ => .sees ?_
  split
  next arrow =>
      refine .advance_seen arrow fun c₆ sign _ => ?_
      refine (reads_expressionAt layout text limit .or).bind fun type c₇ run _ => .pure_bind ?_
      exact gives_functionEnd (by simp) (by simp [startOf]) (congrArg some first) (by simp [inside])
  next =>
      refine .pure_bind ?_
      exact gives_functionEnd (by simp) (by simp [startOf]) (congrArg some first) (by simp [inside])

/-! ## Structs and modules -/

/-- One field of a struct. -/
def field (layout : Layout) (limit : Nat) : Reader FieldDef :=
  annotated layout limit "field name" fun name type span => { name, type, span }

theorem fields_succ (rounds : Nat) (found : List FieldDef) :
    fields layout limit (rounds + 1) found = (do
      skipSeparators
      if ← sees .rightBrace then
        return found
      let next ← field layout limit
      let lineEnded := (← get).seesAny Kind.isSeparator
      skipSeparators
      if ← sees .comma then
        advance
        fields layout limit rounds (found ++ [next])
      else if lineEnded || (← sees .rightBrace) then
        fields layout limit rounds (found ++ [next])
      else
        unexpected layout "',' or '\x7d'") := by
  simp only [fields, field, annotated, bind_assoc, pure_bind]

theorem reads_field : Reads layout text (field layout limit) .field :=
  reads_annotated (fun _ _ _ => rfl) (fun _ _ _ => rfl) (fun _ _ _ => rfl) fun _ _ _ => rfl

theorem gives_fields {rounds : Nat} {found : List FieldDef} (sofar : partsAlong elements = found.map .field) :
    Gives layout text before elements c (fields layout limit rounds found)
      fun all out => partsAlong all = out.map .field := by
  induction rounds generalizing found elements c with
  | zero => exact gives_exhausted
  | succ rounds ih =>
      rw [fields_succ]
      refine .skipSeparators fun c₁ own => .sees ?_
      split
      · exact .pure (by simp [sofar])
      refine reads_field.bind fun next c₂ run _ => .get (.skipSeparators fun c₃ own' => .sees ?_)
      split
      next comma => exact .advance_seen comma fun c₄ token _ => ih (by simp [sofar])
      refine .sees ?_
      split
      · exact ih (by simp [sofar])
      · exact gives_unexpected _

theorem reads_structDef : Reads layout text (structDef layout limit) .struct := by
  intro before c
  refine .expect fun token c₁ first => .expect fun opening c₂ _ => ?_
  have all : Takes layout text (fields layout limit limit []) fun all out => partsAlong all = out.map .field :=
    fun _ _ => gives_fields rfl
  refine all.bind fun found c₃ more inside => .expect fun token' c₄ last => ?_
  refine .spanned (by simp) (by simp [startOf]) (fun s => by simp [inside, Node.parts])
    (fun s => congrArg some first) (fun s => ?_) fun _ => rfl
  rw [lastKind_own, last]
  exact List.mem_singleton_self _

theorem reads_member : Reads layout text (member layout limit) Member.node := by
  intro before c
  refine .sees ?_
  split
  · exact reads_functionDef.wrap fun _ => rfl
  refine .sees ?_
  split
  · exact reads_structDef.wrap fun _ => rfl
  · exact gives_unexpected _

theorem gives_dottedName {rounds : Nat} {path : String} (sofar : partsAlong elements = []) :
    Gives layout text before elements c (dottedName layout rounds path) fun all _ => partsAlong all = [] := by
  induction rounds generalizing path elements c with
  | zero => exact gives_exhausted
  | succ rounds ih =>
      refine .sees ?_
      split
      next dot => exact .advance_seen dot fun c₁ sign _ => .name fun part c₂ _ => ih (by simp [sofar])
      next => exact .pure sofar

theorem gives_members {rounds : Nat} {found : List Member}
    (sofar : partsAlong elements = found.map Member.node) :
    Gives layout text before elements c (members layout limit rounds found)
      fun all out => partsAlong all = out.map Member.node := by
  induction rounds generalizing found elements c with
  | zero => exact gives_exhausted
  | succ rounds ih =>
      refine .skipSeparators fun c₁ own => .sees (.get ?_)
      split
      · exact .pure (by simp [sofar])
      refine .sees ?_
      split
      · exact .currentSpan (gives_fail _)
      · exact reads_member.bind fun next c₂ run _ => ih (by simp [sofar])

theorem reads_moduleDef : Reads layout text (moduleDef layout limit) .block := by
  intro before c
  refine .expect fun token c₁ first => .name fun target c₂ _ => ?_
  have dotted : Takes layout text (dottedName layout limit target.text) fun all _ => partsAlong all = [] :=
    fun _ _ => gives_dottedName rfl
  refine dotted.bind fun path c₃ more none => .expect fun opening c₄ _ => ?_
  have all : Takes layout text (members layout limit limit [])
      fun all out => partsAlong all = out.map Member.node := fun _ _ => gives_members rfl
  refine all.bind fun found c₅ more' inside => .expect fun token' c₆ last => ?_
  refine .spanned (by simp) (by simp [startOf]) (fun s => by simp [none, inside, Node.parts])
    (fun s => congrArg some first) (fun s => ?_) fun _ => rfl
  rw [lastKind_own, last]
  exact List.mem_singleton_self _

theorem reads_item : Reads layout text (item layout limit) Item.node := by
  intro before c
  refine .sees ?_
  split
  · exact reads_moduleDef.wrap fun _ => rfl
  · exact reads_member.wrap fun _ => rfl

end Definitions

end Reader

/-! ## Texts -/

section Texts

variable {layout : Layout} {text before : List Token} {elements : List Element} {c c' e : Cursor} {n : Nat}
  {source : List Char}

/-- What a fault leaves behind is passed token by token. -/
theorem Cursor.Past.passes (past : c.Past layout text before elements) (passes : c.Passes n c') :
    ∃ own : List Token, c'.Past layout text before (elements ++ own.map .own) := by
  induction passes generalizing elements with
  | here => exact ⟨[], by simpa using past⟩
  | on token _ ih =>
      rcases Option.isSome_iff_exists.mp token with ⟨first, found⟩
      rcases ih (past.own found) with ⟨own, past'⟩
      exact ⟨first :: own, by simpa using past'⟩

/-- Recovery passes tokens, as long as there are any. -/
theorem Cursor.Past.recover (past : c.Past layout text before elements)
    (ended : c.current = none → c.rest = []) :
    ∃ own : List Token, c.recover.Past layout text before (elements ++ own.map .own) := by
  unfold Cursor.recover
  cases found : c.current with
  | some token =>
      rcases (past.own found).skip fun kind => !beginsItem kind with ⟨own, past'⟩
      exact ⟨token :: own, by simpa using past'⟩
  | none =>
      -- Nothing is left to be dropped, and moving on stays where it is.
      have stays : c.advance.Past layout text before elements := by
        rw [advance_of_ended found (ended found)]
        refine ⟨past.stands, past.covered, ?_, past.passed⟩
        have tokens := past.tokens
        rw [tokens_of_ended found] at tokens
        exact tokens
      exact stays.skip _

/-- An attempt to read an item passes the item that it reads, and otherwise only tokens. -/
theorem Attempt.exists_past_after {a : Attempt} (made : a.Made layout) (passes : a.start.Passes 0 a.stop)
    (token : a.start.current.isSome = true) (past : a.start.Past layout text before elements) :
    ∃ more, a.after.Past layout text before (elements ++ more) ∧
      partsAlong more = a.item?.toList.map Item.node := by
  have run := made (a.start.remaining + 1) (Nat.lt_succ_self _)
  unfold after item?
  cases outcome : a.outcome with
  | ok item =>
      rw [outcome] at run
      rcases Reader.Gives.of_run past.begins run (Reader.reads_item _ _) with ⟨all, past', covers⟩
      exact ⟨_, past.append (past'.part covers), rfl⟩
  | error e =>
      -- Up to the fault, and from there to the next item, tokens are passed that belong to no item.
      rcases past.passes passes with ⟨own, stopped⟩
      have reported : { a.stop with errors := a.stop.errors ++ [e] }.Past layout text before
          (elements ++ own.map Element.own) :=
        ⟨stopped.stands, stopped.covered, stopped.tokens, stopped.passed⟩
      rcases reported.recover fun ended => passes.rest_of_ended token ended with ⟨own', past'⟩
      exact ⟨own.map Element.own ++ own'.map Element.own, by simpa using past', by simp [Except.toOption]⟩

/-- Reading items leaves a row whose parts are the items. -/
theorem exists_itemRow {limit rounds : Nat} {items : List Item} {out : List Item × List ParseError}
    (enough : c.remaining < limit) (past : c.Past layout text before elements)
    (sofar : partsAlong elements = items.map Item.node)
    (read : readItems layout limit rounds items c = some out) :
    ∃ all c', Cursor.Past layout text before all c' ∧ partsAlong all = out.1.map Item.node := by
  induction rounds generalizing items c elements with
  | zero => cases read
  | succ rounds ih =>
      -- The separators between items are tokens of the file's own.
      rcases past.skip Kind.isSeparator with ⟨own, skipped⟩
      rcases readItems_round enough read with ⟨-, items'⟩ | ⟨a, start, token, made, passes, fewer, read⟩
      · exact ⟨_, _, skipped, by simp [sofar, items']⟩
      · rw [← start] at skipped
        rcases a.exists_past_after made passes token skipped with ⟨more, past', item⟩
        refine ih (by omega) past' ?_ read
        simp [sofar, item]

/-- In front of a text nothing has been passed. -/
theorem past_ofLexemes (source : List Char) :
    (Cursor.ofLexemes (Token.scan source)).Past (Layout.ofText source) (tokensOf source) [] [] where
  stands := tokensOf_stand source
  covered := nofun
  tokens := (Cursor.tokens_ofLexemes source).symm
  passed := rfl

/-- What is passed as a part covers some of the tokens of the text. -/
theorem Cursor.Past.exists_run {node : Node} (past : c.Past layout text [] elements)
    (member : node ∈ partsAlong elements) :
    ∃ before run behind, text = before ++ run ++ behind ∧ node.Covers layout.lines run := by
  rcases mem_partsAlong.mp member with ⟨run, found⟩
  rcases List.append_of_mem found with ⟨front, rest, rfl⟩
  refine ⟨tokensAlong front, run, tokensAlong rest ++ c.tokens, ?_, past.covered node run found⟩
  simpa using past.tokens

open Reader in
/-- The expression that a text is read as covers tokens of the text. -/
theorem covers_of_parseExpression {e : Expr} (h : parseExpression source = .ok e) :
    ∃ before run behind, tokensOf source = before ++ run ++ behind ∧
      (Node.expr e).Covers (LineTable.ofText source) run := by
  rcases exists_expressionAt h with ⟨limit, c, c', skipped, read⟩
  have run : (skipNewlines >>= fun _ => expressionAt (Layout.ofText source) limit .lowest >>= pure)
      (Cursor.ofLexemes (Token.scan source)) = .ok e c' :=
    bind_eq_ok.mpr ⟨_, c, skipped, bind_eq_ok.mpr ⟨e, c', read, rfl⟩⟩
  have passed : ∃ all, c'.Past (Layout.ofText source) (tokensOf source) [] all ∧
      partsAlong all = [.expr e] := by
    refine Gives.of_run (Q := fun all e => partsAlong all = [.expr e]) (past_ofLexemes source) run ?_
    refine .skipNewlines fun c₁ own => (reads_expressionAt _ _ _ _).bind fun e c₂ run _ => ?_
    exact .pure (by simp)
  rcases passed with ⟨all, past, parts⟩
  exact past.exists_run (by simp [parts])

/-- Reading a file passes a row whose parts are its items. -/
theorem exists_fileRow (source : List Char) :
    ∃ all c, Cursor.Past (Layout.ofText source) (tokensOf source) [] all c ∧
      partsAlong all = (parseFile source).1.items.map Item.node := by
  have file := readFile_eq_some source
  rw [readFile] at file
  simp only [Option.map_eq_some_iff] at file
  rcases file with ⟨out, read, file⟩
  have enough := Nat.lt_succ_of_le (remaining_ofLexemes (Token.scan source))
  rcases exists_itemRow enough (past_ofLexemes source) rfl read with ⟨all, c, past, parts⟩
  exact ⟨all, c, past, by rw [parts, ← file]⟩

end Texts

/-- The spans of a tree lie over its source text as the tree does.

Everything in the tree that a text is read as, as an expression or as a file, is well placed: its span is
not empty, lies in the text, begins and ends between characters and with the first and the last token that
was read as it, and has the line and column of its first byte; its parts lie inside it and one behind the
other.  The items of a file, too, come one behind the other. -/
theorem spans_form_tree (source : List Char) :
    (∀ e, parseExpression source = .ok e → ∀ node : Node, node.Inside (.expr e) → node.WellPlaced source) ∧
    (∀ item ∈ (parseFile source).1.items, ∀ node : Node, node.Inside item.node → node.WellPlaced source) ∧
    (parseFile source).1.items.Pairwise fun a b => a.node.span.stop ≤ b.node.span.start := by
  rcases exists_fileRow source with ⟨all, c, past, parts⟩
  refine ⟨?_, ?_, ?_⟩
  · intro e read node inside
    rcases covers_of_parseExpression read with ⟨before, run, behind, split, covers⟩
    exact covers.wellPlaced split inside
  · intro item member node inside
    have found : item.node ∈ partsAlong all := by
      rw [parts]
      exact List.mem_map_of_mem member
    rcases past.exists_run found with ⟨before, run, behind, split, covers⟩
    exact covers.wellPlaced split inside
  · have ordered := ordered_partsAlong past.covered past.stand
    rw [parts] at ordered
    exact List.pairwise_map.mp ordered

/-- In `f(-1)` the number takes the sign with it. -/
theorem spans_form_tree_call :
    let number : Expr := .integer ⟨2, 4, 1, 3⟩ (-1)
    let call : Expr := .call ⟨0, 5, 1, 1⟩ (.ident ⟨0, 1, 1, 1⟩ "f") [number]
    parseExpression "f(-1)".toList = .ok call ∧ (Node.expr number).Inside (.expr call) ∧
      (Node.expr number).WellPlaced "f(-1)".toList := by
  intro number call
  have read : parseExpression "f(-1)".toList = .ok call := by
    with_unfolding_all rfl
  have inside : (Node.expr number).Inside (.expr call) :=
    .part (by simp [Node.parts, Expr.parts, call]) (.self _)
  exact ⟨read, inside, (spans_form_tree _).1 call read _ inside⟩

end Surface
end Clausal
