import Clausal.Proofs.Syntax.SpanTree

/-!
# What holds of every expression that is read

Reading makes an expression of a single token, of the name of a map entry, by a minus sign in front of
another expression, and as a form around others, with a name of its own if it chooses a field.  A property
that none of them can break (`KeptByReading`) holds of every expression in a tree that is read, at any depth
and also inside blocks, functions and modules (`Node.Everywhere`).  What is known of all tokens of the text
may be used of those that an expression is made of.

Main statements: `KeptByReading.expressionAt`, `KeptByReading.parseExpression`, `KeptByReading.parseFile`.
-/

namespace Clausal
namespace Surface

open Token (Kind)

/-- A property of all expressions in a node, at any depth. -/
def Node.Everywhere (P : Expr → Prop) (node : Node) : Prop := ∀ e, (Node.expr e).Inside node → P e

namespace Node

variable {P : Expr → Prop} {node inner : Node} {e : Expr}

theorem Everywhere.root (h : (Node.expr e).Everywhere P) : P e := h e (.self _)

theorem Everywhere.part (h : node.Everywhere P) (member : inner ∈ node.parts) : inner.Everywhere P :=
  fun e inside => h e (.part member inside)

theorem Everywhere.inside (h : node.Everywhere P) (inside : inner.Inside node) : inner.Everywhere P := by
  induction inside with
  | self => exact h
  | part member _ ih => exact ih (h.part member)

theorem everywhere_expr (root : P e) (parts : ∀ part ∈ (Node.expr e).parts, part.Everywhere P) :
    (Node.expr e).Everywhere P := by
  intro inner inside
  cases inside with
  | self => exact root
  | part member inside => exact parts _ member inner inside

/-- What is no expression has the property as soon as its parts do. -/
theorem everywhere_of_parts (other : ∀ e, node ≠ .expr e)
    (parts : ∀ part ∈ node.parts, part.Everywhere P) : node.Everywhere P := by
  intro inner inside
  cases inside with
  | self => exact absurd rfl (other inner)
  | part member inside => exact parts _ member inner inside

end Node

/-- A property that reading tokens with the property `T` cannot break: single tokens, the names of map
entries and the forms that choose a field have it, a minus sign in front keeps it, and no other form around
expressions is without it. -/
structure KeptByReading (T : Token → Prop) (P : Expr → Prop) : Prop where
  leaf : ∀ {token : Token} {e : Expr}, T token → Reader.leaf? token = some (.ok e) → P e
  key : ∀ {token : Token}, token.kind = .identifier → T token → P (.atom token.span token.text)
  field : ∀ span target {token : Token}, token.kind = .identifier → T token →
    P (.field span target token.text)
  sign : ∀ span {e : Expr}, P e → P (Reader.negated span e)
  form : ∀ {e : Expr}, e.leafKinds = [] → (∀ span target name, e ≠ .field span target name) → P e

namespace Reader

/-- A leaf has no parts. -/
theorem parts_of_leaf? {token : Token} {e : Expr} (h : leaf? token = some (.ok e)) :
    (Node.expr e).parts = [] := by
  cases leafOf_of_leaf? h <;> rfl

/-! ## Blocks of expressions -/

section Blocks

variable {T : Token → Prop} {P : Expr → Prop} {layout : Layout} {limit : Nat}
  {sub : Precedence → Reader Expr} (each : ∀ least, Always T (sub least) fun e => (Node.expr e).Everywhere P)

include each

theorem always_statement : Always T (statement layout sub) fun stmt => (Node.stmt stmt).Everywhere P := by
  have value {stmt : Stmt} {e : Expr} (parts : (Node.stmt stmt).parts = [.expr e])
      (holds : (Node.expr e).Everywhere P) : (Node.stmt stmt).Everywhere P := by
    refine Node.everywhere_of_parts nofun ?_
    rw [parts]
    exact List.forall_mem_singleton.mpr holds
  refine .sees fun binds => ?_
  split
  · refine .expect fun _ => .name fun target _ _ => .expect fun _ => .skipNewlines ?_
    exact .bind (each .lowest) fun e holds => .spanFrom fun span => .pure (value rfl holds)
  · exact .bind (each .lowest) fun e holds => .pure (value rfl holds)

theorem always_statements {rounds : Nat} {stmts : List Stmt}
    (before : ∀ stmt ∈ stmts, (Node.stmt stmt).Everywhere P) :
    Always T (statements layout sub rounds stmts) fun out =>
      ∀ stmt ∈ out, (Node.stmt stmt).Everywhere P := by
  induction rounds generalizing stmts with
  | zero => exact always_exhausted
  | succ rounds ih =>
      refine .skipSeparators (.sees fun closed => .get fun _ _ => ?_)
      split
      · exact .pure before
      refine .bind (always_statement each) fun next holds => .sees fun _ => .get fun _ _ => ?_
      have after : ∀ stmt ∈ stmts ++ [next], (Node.stmt stmt).Everywhere P := forall_mem_concat before holds
      split
      · exact ih after
      · exact always_unexpected _

theorem always_block :
    Always T (block layout limit sub) fun out => ∀ stmt ∈ out, (Node.stmt stmt).Everywhere P :=
  .expect fun _ => .bind (always_statements each nofun) fun _ all => .expect fun _ => .pure all

end Blocks

end Reader

namespace KeptByReading

open Reader

/-! ## Expressions -/

section Forms

variable {T : Token → Prop} {P : Expr → Prop} (kept : KeptByReading T P) {layout : Layout} {limit : Nat}
  {sub : Precedence → Reader Expr} (each : ∀ least, Always T (sub least) fun e => (Node.expr e).Everywhere P)

include kept

theorem of_parts {e : Expr} (form : e.leafKinds = []) (other : ∀ span target name, e ≠ .field span target name)
    (parts : ∀ part ∈ (Node.expr e).parts, part.Everywhere P) : (Node.expr e).Everywhere P :=
  Node.everywhere_expr (kept.form form other) parts

/-- A form around expressions. -/
theorem of_exprs {e : Expr} (form : e.leafKinds = []) (other : ∀ span target name, e ≠ .field span target name)
    (same : (Node.expr e).parts = e.parts.map .expr)
    (parts : ∀ part ∈ e.parts, (Node.expr part).Everywhere P) : (Node.expr e).Everywhere P := by
  refine kept.of_parts form other ?_
  rw [same]
  exact List.forall_mem_map.mpr parts

theorem of_leaf? {token : Token} {e : Expr} (holds : T token) (h : leaf? token = some (.ok e)) :
    (Node.expr e).Everywhere P := by
  refine Node.everywhere_expr (kept.leaf holds h) ?_
  rw [parts_of_leaf? h]
  exact List.forall_mem_nil _

theorem negated {e : Expr} (inner : (Node.expr e).Everywhere P) (span : Span) :
    (Node.expr (negated span e)).Everywhere P := by
  refine Node.everywhere_expr (kept.sign span inner.root) ?_
  cases e with
  | integer | float => exact List.forall_mem_nil _
  | _ => exact List.forall_mem_singleton.mpr inner

theorem combine {left right : Expr} (kind : Kind) (first : (Node.expr left).Everywhere P)
    (second : (Node.expr right).Everywhere P) : (Node.expr (combine kind left right)).Everywhere P := by
  have both : ∀ part ∈ [left, right], (Node.expr part).Everywhere P := by simpa using And.intro first second
  unfold Reader.combine
  simp only
  split <;> exact kept.of_exprs rfl nofun rfl both

include each

theorem list : Always T (list layout limit sub) fun e => (Node.expr e).Everywhere P := by
  refine .expect fun _ => .bind (always_listItems (each _) nofun) fun (items, tail) ⟨all, last⟩ => ?_
  refine .expect fun _ => .spanFrom fun span => ?_
  cases tail with
  | none => exact .pure (kept.of_exprs rfl nofun rfl all)
  | some tail => exact .pure (kept.of_exprs rfl nofun rfl (forall_mem_concat all (last tail rfl).1))

theorem mapEntry : Always T (mapEntry layout sub) fun entry =>
    (Node.expr entry.1).Everywhere P ∧ (Node.expr entry.2).Everywhere P := by
  refine always_mapEntry (each _) (fun token kind holds => ?_) (each _)
  exact Node.everywhere_expr (kept.key kind holds) nofun

theorem map : Always T (map layout limit sub) fun e => (Node.expr e).Everywhere P := by
  refine .expect fun _ => ?_
  rw [mapEntries_eq_row]
  refine .bind (always_row (kept.mapEntry each) nofun) fun entries all => ?_
  refine .expect fun _ => .spanFrom fun span => .pure (kept.of_exprs rfl nofun rfl fun part member => ?_)
  rcases List.mem_flatMap.mp member with ⟨entry, found, inside⟩
  simp only [List.mem_cons, List.not_mem_nil, or_false] at inside
  rcases inside with rfl | rfl
  · exact (all entry found).1
  · exact (all entry found).2

theorem cond {rounds : Nat} : Always T (cond layout limit sub rounds) fun e => (Node.expr e).Everywhere P := by
  induction rounds with
  | zero => exact always_exhausted
  | succ rounds ih =>
      refine .expect fun _ => .bind (each .or) fun condition holds => ?_
      refine .bind (always_block each) fun thenBlock first => .sees fun hasElse => ?_
      -- The three shapes of an `else` end alike.
      have whole {start : Nat} {elseBlock : List Stmt}
          (second : ∀ stmt ∈ elseBlock, (Node.stmt stmt).Everywhere P) :
          Always T (do return .cond (← spanFrom layout start) condition thenBlock elseBlock) fun e =>
            (Node.expr e).Everywhere P := by
        refine .spanFrom fun span => .pure (kept.of_parts rfl nofun (List.forall_mem_cons.mpr ⟨holds, ?_⟩))
        exact List.forall_mem_append.mpr ⟨List.forall_mem_map.mpr first, List.forall_mem_map.mpr second⟩
      split
      · refine .advance (.sees fun chained => ?_)
        split
        · refine .bind ih fun nested inner => .bind (.pure ?_) fun _ second => whole second
          have single : (Node.stmt (.expr nested)).Everywhere P :=
            Node.everywhere_of_parts nofun (List.forall_mem_singleton.mpr inner)
          exact List.forall_mem_singleton.mpr single
        · exact .bind (always_block each) fun _ second => whole second
      · exact .bind (.pure nofun) fun _ second => whole second

theorem primary : Always T (primary layout limit sub) fun e => (Node.expr e).Everywhere P := by
  refine .get fun c tokens => ?_
  cases found : c.current with
  | none => exact always_unexpected _
  | some token =>
      cases leaf : leaf? token with
      | some result =>
          simp only [leaf]
          refine .advance ?_
          cases result with
          | ok e => exact .pure (kept.of_leaf? (tokens.current token found) leaf)
          | error error => exact always_fail error
      | none =>
          simp only [leaf]
          cases token.kind
          case leftParen =>
            exact always_delimited (each _) fun span items all => kept.of_exprs rfl nofun rfl all
          case leftBracket => exact kept.list each
          case leftBrace =>
            exact always_delimited (each _) fun span items all => kept.of_exprs rfl nofun rfl all
          case percentBrace => exact kept.map each
          case kwIf => exact kept.cond each
          all_goals exact always_unexpected _

theorem operand : Always T (operand layout limit sub) fun e => (Node.expr e).Everywhere P := by
  refine .currentSpan fun _ => .sees fun minus => ?_
  split
  · refine .advance (.bind (each .unary) fun e holds => ?_)
    exact .spanFrom fun span => .pure (kept.negated holds span)
  refine .sees fun negation => ?_
  split
  · refine .advance (.bind (each .unary) fun e holds => .spanFrom fun span => .pure ?_)
    exact kept.of_exprs rfl nofun rfl (List.forall_mem_singleton.mpr holds)
  · exact kept.primary each

/-- The loop over operators keeps a tree that has the property everywhere. -/
theorem continuation {least : Precedence} {rounds : Nat} {left : Expr}
    (holds : (Node.expr left).Everywhere P) :
    Always T (continuation layout limit sub least rounds left) fun e => (Node.expr e).Everywhere P := by
  -- A call and an index have the arguments behind what they are applied to.
  have applied (args : List Expr) (all : ∀ arg ∈ args, (Node.expr arg).Everywhere P) {left : Expr}
      (holds : (Node.expr left).Everywhere P) : ∀ part ∈ left :: args, (Node.expr part).Everywhere P :=
    List.forall_mem_cons.mpr ⟨holds, all⟩
  induction rounds generalizing left with
  | zero => exact always_exhausted
  | succ rounds ih =>
      refine .get fun c _ => ?_
      split
      · exact .pure holds
      · refine .bind ?_ fun _ called => ih called
        exact always_delimited (each _) fun span args all =>
          kept.of_exprs rfl nofun rfl (applied args all holds)
      · refine .bind ?_ fun _ indexed => ih indexed
        exact always_delimited (each _) fun span args all =>
          kept.of_exprs rfl nofun rfl (applied args all holds)
      · refine .bind ?_ fun _ chosen => ih chosen
        refine .expect fun _ => .name fun field kind named => .spanFrom fun span => .pure ?_
        exact Node.everywhere_expr (kept.field span left kind named) (List.forall_mem_singleton.mpr holds)
      next kind _ _ _ _ =>
          cases kind.operator? with
          | none => exact .pure holds
          | some binding =>
              simp only
              split
              · exact .pure holds
              · refine .advance (.skipNewlines (.bind (each _) fun right second => ?_))
                exact ih (kept.combine kind holds second)

end Forms

section Texts

variable {T : Token → Prop} {P : Expr → Prop} (kept : KeptByReading T P) (layout : Layout) (limit : Nat)

include kept

theorem expressionAt (least : Precedence) :
    Always T (expressionAt layout limit least) fun e => (Node.expr e).Everywhere P := by
  induction limit generalizing least with
  | zero => exact always_exhausted
  | succ limit ih => exact .bind (kept.operand ih) fun left holds => kept.continuation ih holds

/-! ## Definitions -/

/-- A name with a type, which is its only part. -/
theorem annotated {α : Type} {what : String} {form : String → Expr → Span → α} (node : α → Node)
    (parts : ∀ text type span, (node (form text type span)).parts = [.expr type])
    (other : ∀ a e, node a ≠ .expr e) :
    Always T (annotated layout limit what form) fun a => (node a).Everywhere P := by
  refine .name fun target _ _ => .expect fun _ => ?_
  refine .bind (kept.expressionAt layout limit .or) fun type holds => ?_
  refine .spanFrom fun span => .pure (Node.everywhere_of_parts (other _) ?_)
  rw [parts]
  exact List.forall_mem_singleton.mpr holds

theorem parameter : Always T (parameter layout limit) fun p => (Node.param p).Everywhere P := by
  refine .name fun target _ _ => .sees fun colon => ?_
  split
  · refine .advance (.bind (kept.expressionAt layout limit .default) fun type holds => ?_)
    exact .spanFrom fun span => .pure (Node.everywhere_of_parts nofun (List.forall_mem_singleton.mpr holds))
  · exact always_fail _

theorem constraints {rounds : Nat} {found : List Constraint}
    (before : ∀ c ∈ found, (Node.constraint c).Everywhere P) :
    Always T (constraints layout limit rounds found) fun out =>
      ∀ c ∈ out, (Node.constraint c).Everywhere P := by
  induction rounds generalizing found with
  | zero => exact always_exhausted
  | succ rounds ih =>
      rw [constraints_succ]
      refine .skipNewlines ?_
      refine .bind (kept.annotated layout limit .constraint (fun _ _ _ => rfl) nofun) fun next holds => ?_
      have after : ∀ c ∈ found ++ [next], (Node.constraint c).Everywhere P := forall_mem_concat before holds
      refine .sees fun comma => ?_
      split
      · exact .advance (ih after)
      · exact .pure after

/-- The body and the end of a function, whose head has the property everywhere. -/
theorem functionBody {start : Nat} {target : String} {params : List Param} {returnType : Option Expr}
    {found : List Constraint} (first : ∀ p ∈ params, (Node.param p).Everywhere P)
    (type : ∀ e ∈ returnType.toList, (Node.expr e).Everywhere P)
    (bounds : ∀ c ∈ found, (Node.constraint c).Everywhere P) :
    Always T (do
      let body ← block layout limit (Reader.expressionAt layout limit)
      return { name := target, params, returnType, constraints := found, body
               span := ← spanFrom layout start }) fun f => (Node.function f).Everywhere P := by
  refine .bind (always_block (kept.expressionAt layout limit)) fun body stmts => .spanFrom fun span => .pure ?_
  refine Node.everywhere_of_parts nofun ?_
  exact List.forall_mem_append.mpr ⟨List.forall_mem_map.mpr first,
    List.forall_mem_append.mpr ⟨List.forall_mem_map.mpr type,
      List.forall_mem_append.mpr ⟨List.forall_mem_map.mpr bounds, List.forall_mem_map.mpr stmts⟩⟩⟩

/-- The constraints of a function and what stands behind them. -/
theorem functionEnd {start : Nat} {target : String} {params : List Param} {returnType : Option Expr}
    (first : ∀ p ∈ params, (Node.param p).Everywhere P)
    (type : ∀ e ∈ returnType.toList, (Node.expr e).Everywhere P) :
    Always T (do
      let found ←
        if ← sees .kwWhere then do
          advance
          Reader.constraints layout limit limit []
        else
          pure []
      let body ← block layout limit (Reader.expressionAt layout limit)
      return { name := target, params, returnType, constraints := found, body
               span := ← spanFrom layout start }) fun f => (Node.function f).Everywhere P := by
  refine .sees fun bounded => ?_
  split
  · refine .advance (.bind (kept.constraints layout limit nofun) fun found bounds => ?_)
    exact kept.functionBody layout limit first type bounds
  · exact .bind (.pure (List.forall_mem_nil _)) fun found bounds =>
      kept.functionBody layout limit first type bounds

theorem functionDef : Always T (functionDef layout limit) fun f => (Node.function f).Everywhere P := by
  refine .expect fun _ => .name fun target _ _ => .expect fun _ => ?_
  rw [parameters_eq_row]
  refine .bind (always_row (kept.parameter layout limit) nofun) fun params first => ?_
  refine .expect fun _ => .sees fun arrow => ?_
  split
  · refine .advance (.bind (kept.expressionAt layout limit .or) fun type holds => ?_)
    refine .bind (P := fun type => ∀ e ∈ type.toList, (Node.expr e).Everywhere P) (.pure ?_)
      fun returnType type => kept.functionEnd layout limit first type
    exact List.forall_mem_singleton.mpr holds
  · refine .bind (P := fun type => ∀ e ∈ type.toList, (Node.expr e).Everywhere P) (.pure ?_)
      fun returnType type => kept.functionEnd layout limit first type
    exact List.forall_mem_nil _

theorem fields {rounds : Nat} {found : List FieldDef} (before : ∀ f ∈ found, (Node.field f).Everywhere P) :
    Always T (fields layout limit rounds found) fun out => ∀ f ∈ out, (Node.field f).Everywhere P := by
  induction rounds generalizing found with
  | zero => exact always_exhausted
  | succ rounds ih =>
      rw [fields_succ]
      refine .skipSeparators (.sees fun closed => ?_)
      split
      · exact .pure before
      refine .bind (kept.annotated layout limit .field (fun _ _ _ => rfl) nofun) fun next holds => ?_
      have after : ∀ f ∈ found ++ [next], (Node.field f).Everywhere P := forall_mem_concat before holds
      refine .get fun _ _ => .skipSeparators (.sees fun comma => ?_)
      split
      · exact .advance (ih after)
      refine .sees fun closing => ?_
      split
      · exact ih after
      · exact always_unexpected _

theorem structDef : Always T (structDef layout limit) fun s => (Node.struct s).Everywhere P := by
  refine .expect fun _ => .expect fun _ => .bind (kept.fields layout limit nofun) fun found all => ?_
  refine .expect fun _ => .spanFrom fun span => .pure (Node.everywhere_of_parts nofun ?_)
  exact List.forall_mem_map.mpr all

theorem member : Always T (member layout limit) fun m => m.node.Everywhere P := by
  refine .sees fun function => ?_
  split
  · exact .bind (kept.functionDef layout limit) fun f holds => .pure holds
  refine .sees fun struct => ?_
  split
  · exact .bind (kept.structDef layout limit) fun s holds => .pure holds
  · exact always_unexpected _

theorem members {rounds : Nat} {found : List Member} (before : ∀ m ∈ found, m.node.Everywhere P) :
    Always T (members layout limit rounds found) fun out => ∀ m ∈ out, m.node.Everywhere P := by
  induction rounds generalizing found with
  | zero => exact always_exhausted
  | succ rounds ih =>
      refine .skipSeparators (.sees fun closed => .get fun _ _ => ?_)
      split
      · exact .pure before
      refine .sees fun nested => ?_
      split
      · exact .currentSpan fun _ => always_fail _
      refine .bind (kept.member layout limit) fun next holds => ?_
      exact ih (forall_mem_concat before holds)

omit kept in
theorem dottedName {rounds : Nat} {path : String} :
    Always T (dottedName layout rounds path) fun _ => True := by
  induction rounds generalizing path with
  | zero => exact always_exhausted
  | succ rounds ih =>
      refine .sees fun dot => ?_
      split
      · exact .advance (.name fun _ _ _ => ih)
      · exact .pure trivial

theorem moduleDef : Always T (moduleDef layout limit) fun m => (Node.block m).Everywhere P := by
  refine .expect fun _ => .name fun first _ _ => .bind (dottedName layout) fun path _ => .expect fun _ => ?_
  refine .bind (kept.members layout limit nofun) fun found all => .expect fun _ => .spanFrom fun span => ?_
  exact .pure (Node.everywhere_of_parts nofun (List.forall_mem_map.mpr all))

theorem item : Always T (item layout limit) fun i => i.node.Everywhere P := by
  refine .sees fun block => ?_
  split
  · exact .bind (kept.moduleDef layout limit) fun m holds => .pure holds
  · exact .bind (kept.member layout limit) fun m holds => .pure holds

/-! ## Texts -/

omit layout limit

/-- The tree that a text is read as has the property everywhere. -/
theorem parseExpression {source : List Char} {e : Expr}
    (tokens : ∀ token, .ok token ∈ Token.scan source → T token) (h : parseExpression source = .ok e) :
    (Node.expr e).Everywhere P := by
  rcases exists_expressionAt h with ⟨limit, c, c', skipped, read⟩
  have ahead : c.TokensHave T := by
    cases skipped
    exact (Cursor.tokensHave_ofLexemes tokens).skip _
  exact (kept.expressionAt _ limit .lowest).of_run ahead read

theorem readItems {layout : Layout} {limit rounds : Nat} {items : List Item} {c : Cursor}
    {out : List Item × List ParseError} (ahead : c.TokensHave T) (before : ∀ i ∈ items, i.node.Everywhere P)
    (read : readItems layout limit rounds items c = some out) : ∀ i ∈ out.1, i.node.Everywhere P := by
  induction rounds generalizing items c with
  | zero => cases read
  | succ rounds ih =>
      simp only [Surface.readItems] at read
      split at read
      · cases read
        exact before
      · split at read
        next next c' run =>
          have holds := (kept.item layout limit).of_run (ahead.skip _) run
          have behind := (kept.item layout limit).tokens_of_run (ahead.skip _) run
          exact ih behind (forall_mem_concat before holds) read
        next e c' run =>
          -- What is dropped behind a fault is dropped from the same tokens.
          have stopped := (kept.item layout limit).tokens_of_error (ahead.skip _) run
          have reported : { c' with errors := c'.errors ++ [e] }.TokensHave T :=
            ⟨stopped.current, stopped.rest⟩
          exact ih (reported.advance.skip _) before read
        next => cases read

/-- What is kept of a source file has the property everywhere. -/
theorem parseFile (source : List Char) (tokens : ∀ token, .ok token ∈ Token.scan source → T token) :
    ∀ i ∈ (parseFile source).1.items, i.node.Everywhere P := by
  have file := readFile_eq_some source
  rw [readFile] at file
  simp only [Option.map_eq_some_iff] at file
  rcases file with ⟨out, read, file⟩
  rw [← file]
  exact kept.readItems (Cursor.tokensHave_ofLexemes tokens) (List.forall_mem_nil _) read

end Texts

end KeptByReading

end Surface
end Clausal
