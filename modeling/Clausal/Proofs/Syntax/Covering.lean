import Clausal.Proofs.Syntax.Passing

/-!
# Expressions cover the tokens that reading took

Every reader of a form of expression leaves a row whose parts, first token and last token are those of the
form that it gives, so that the form covers the tokens of the row.  The loop over operators makes a part of
the row again and again, which is the first part of the next.

Main statement: `reads_expressionAt`.
-/

namespace Clausal
namespace Surface

open Token (Kind)

namespace Reader

variable {α β : Type}

/-! ## Rows of parts -/

section Forms

variable {layout : Layout} {text before : List Token} {elements : List Element} {c : Cursor} {limit : Nat}
  {sub : Precedence → Reader Expr}

/-- The parts of a row are those of its items. -/
theorem gives_row {item : Reader β} {nodes : β → List Node}
    (each : Takes layout text item fun all b => partsAlong all = nodes b) {close : Kind} {rounds : Nat}
    {items : List β} (sofar : partsAlong elements = items.flatMap nodes) :
    Gives layout text before elements c (row item close rounds items)
      fun all out => partsAlong all = out.flatMap nodes := by
  induction rounds generalizing items elements c with
  | zero => exact gives_exhausted
  | succ rounds ih =>
      refine .skipNewlines fun c₁ own => .sees ?_
      split
      · exact .pure (by simp [sofar])
      refine each.bind fun next c₂ more parts => ?_
      refine .skipNewlines fun c₃ own' => .sees ?_
      have after : partsAlong (elements ++ own.map .own ++ more ++ own'.map .own)
          = (items ++ [next]).flatMap nodes := by simp [sofar, parts]
      split
      next comma =>
          refine .advance_seen comma fun c₄ token _ => ih ?_
          simpa using after
      -- Without a comma the row is over; its end is left to the form around it.
      next => exact .pure after

variable (each : ∀ least, Reads layout text (sub least) .expr)

include each

theorem takes_commaList (close : Kind) (rounds : Nat) :
    Takes layout text (commaList sub close rounds [])
      fun all items => partsAlong all = items.map .expr := by
  intro before c
  rw [commaList_eq_row]
  refine (gives_row (each .lowest).takes (by simp)).mono fun all items parts => ?_
  rw [parts, List.map_eq_flatMap]

/-! ## Delimited forms -/

/-- Expressions between two delimiters, behind what the row has before the first of them. -/
theorem gives_delimited {opening closing : Kind} {start : Token → Nat} {form : Span → List Expr → Expr}
    (begins : ∀ token : Token, start token = startOf (tokensAlong (elements ++ [.own token])))
    (parts : ∀ span items, (Node.expr (form span items)).parts = partsAlong elements ++ items.map .expr)
    (opens : ∀ (token : Token) span items, token.kind = opening →
      firstKind (elements ++ [Element.own token]) = (Node.expr (form span items)).opening)
    (closes : ∀ span items, some closing ∈ (Node.expr (form span items)).closings)
    (span : ∀ span items, (form span items).span = span) :
    Gives layout text before elements c (delimited layout limit sub opening closing start form)
      fun all e => (Node.expr e).Covers layout.lines (tokensAlong all) := by
  refine .expect fun token c₁ first => (takes_commaList each closing limit).bind fun items c₂ more inside => ?_
  have some : elements ++ [.own token] ≠ [] := by simp
  refine .expect fun token' c₃ last => .spanned ?_ ?_ ?_ ?_ ?_ fun s => span s items
  · simp
  · rw [startOf_along (by simp), startOf_along (by simp), begins]
  · intro s
    simp [parts, inside]
  · intro s
    rw [firstKind_append (by simp), firstKind_append some]
    exact opens token s items first
  · intro s
    rw [lastKind_own, last]
    exact closes s items

theorem reads_paren : Reads layout text (paren layout limit sub) .expr := by
  intro before c
  rw [paren_eq_delimited]
  exact gives_delimited each (fun _ => rfl) (fun _ _ => rfl) (fun _ _ _ kind => congrArg some kind)
    (fun _ _ => List.mem_singleton_self _) fun _ _ => rfl

theorem reads_tuple : Reads layout text (tuple layout limit sub) .expr := by
  intro before c
  rw [tuple_eq_delimited]
  exact gives_delimited each (fun _ => rfl) (fun _ _ => rfl) (fun _ _ _ kind => congrArg some kind)
    (fun _ _ => List.mem_singleton_self _) fun _ _ => rfl

/-- The items of a list and the tail behind them. -/
theorem gives_listItems {rounds : Nat} {items : List Expr}
    (sofar : partsAlong elements = items.map .expr) :
    Gives layout text before elements c (listItems sub rounds items)
      fun all out => partsAlong all = (out.1 ++ out.2.toList).map .expr := by
  induction rounds generalizing items elements c with
  | zero => exact gives_exhausted
  | succ rounds ih =>
      refine .skipNewlines fun c₁ own => .sees ?_
      split
      · exact .pure (by simp [sofar])
      refine (each .lowest).bind fun next c₂ run _ => .skipNewlines fun c₃ own' => .sees ?_
      have after : partsAlong (elements ++ own.map .own ++ [.part (.expr next) run] ++ own'.map .own)
          = (items ++ [next]).map .expr := by simp [sofar]
      split
      next bar =>
          refine .advance_seen bar fun c₄ token _ => .skipNewlines fun c₅ own₅ => ?_
          refine (each .lowest).bind fun tail c₆ run' _ => .skipNewlines fun c₇ own₇ => .pure ?_
          simp [sofar]
      refine .sees ?_
      split
      next comma =>
          refine .advance_seen comma fun c₄ token _ => ih ?_
          simpa using after
      next => exact .pure (by simpa using after)

theorem reads_list : Reads layout text (list layout limit sub) .expr := by
  intro before c
  refine .expect fun token c₁ first => ?_
  have items : Takes layout text (listItems sub limit [])
      fun all out => partsAlong all = (out.1 ++ out.2.toList).map .expr :=
    fun _ _ => gives_listItems each rfl
  refine items.bind fun (items, tail) c₂ more inside => .expect fun token' c₃ last => ?_
  refine .spanFrom (by simp) (by simp [startOf]) ?_
  have opening : firstKind ([] ++ [Element.own token] ++ more ++ [.own token']) = some .leftBracket :=
    congrArg some first
  have closing : lastKind ([] ++ [Element.own token] ++ more ++ [.own token']) = some .rightBracket := by
    rw [lastKind_own, last]
  have parts : partsAlong ([] ++ [Element.own token] ++ more ++ [.own token']) = partsAlong more := by simp
  -- With a tail the form is another one, but its parts and its ends are found alike.
  cases tail with
  | some tail =>
      exact .form (by simp) (parts.trans inside) opening (closing ▸ List.mem_singleton_self _) rfl
  | none =>
      have inside' : partsAlong more = items.map .expr := by simpa using inside
      exact .form (by simp) (parts.trans inside') opening (closing ▸ List.mem_singleton_self _) rfl

theorem takes_mapEntry : Takes layout text (mapEntry layout sub)
    fun all entry => partsAlong all = [.expr entry.1, .expr entry.2] := by
  intro before c
  refine .get ?_
  split
  · -- The name in front of the colon is read as an atom over the same token.
    refine .takeAs (fun token => .part (.expr (.atom token.span token.text)) [token]) (fun _ => rfl) ?_ ?_
    · rintro token kind span _ _ ⟨⟩
      exact .single (by simp [Expr.leafKinds, kind]) span
    · intro token c₁ kind
      refine .expect fun colon c₂ _ => .skipNewlines fun c₃ own => ?_
      exact (each .lowest).bind fun value c₄ run _ => .pure (by simp)
  · refine (each .or).bind fun key c₁ run _ => .skipNewlines fun c₂ own => ?_
    refine .expect fun arrow c₃ _ => .skipNewlines fun c₄ own' => ?_
    exact (each .lowest).bind fun value c₅ run' _ => .pure (by simp)

theorem reads_map : Reads layout text (map layout limit sub) .expr := by
  intro before c
  refine .expect fun token c₁ first => ?_
  have entries : Takes layout text (mapEntries layout sub limit [])
      fun all out => partsAlong all = out.flatMap fun entry => [Node.expr entry.1, .expr entry.2] := by
    intro before c
    rw [mapEntries_eq_row]
    exact gives_row (takes_mapEntry each) rfl
  refine entries.bind fun entries c₂ more inside => .expect fun token' c₃ last => ?_
  refine .spanned (by simp) (by simp [startOf]) (fun s => ?_) (fun s => congrArg some first) (fun s => ?_)
    fun _ => rfl
  · simp [inside, Node.parts, Expr.parts, List.map_flatMap]
  · rw [lastKind_own, last]
    exact List.mem_singleton_self _

/-! ## Blocks -/

theorem reads_statement : Reads layout text (statement layout sub) .stmt := by
  intro before c
  refine .sees ?_
  split
  · refine .expect fun token c₁ first => .name fun target c₂ _ => .expect fun equals c₃ _ => ?_
    refine .skipNewlines fun c₄ own => (each .lowest).bind fun value c₅ run _ => ?_
    refine .spanned (by simp) (by simp [startOf]) (fun s => by simp [Node.parts])
      (fun s => congrArg some first) (fun s => ?_) fun _ => rfl
    rw [lastKind_part]
    exact List.mem_singleton_self _
  · exact (each .lowest).stmt.wrap fun _ => rfl

theorem gives_statements {rounds : Nat} {stmts : List Stmt} (sofar : partsAlong elements = stmts.map .stmt) :
    Gives layout text before elements c (statements layout sub rounds stmts)
      fun all out => partsAlong all = out.map .stmt := by
  induction rounds generalizing stmts elements c with
  | zero => exact gives_exhausted
  | succ rounds ih =>
      refine .skipSeparators fun c₁ own => .sees (.get ?_)
      split
      · exact .pure (by simp [sofar])
      refine (reads_statement each).bind fun stmt c₂ run _ => .sees (.get ?_)
      split
      · exact ih (by simp [sofar])
      · exact gives_unexpected _

theorem takes_block : Takes layout text (block layout limit sub)
    fun all stmts => partsAlong all = stmts.map .stmt ∧ lastKind all = some .rightBrace := by
  intro before c
  have stmts : Takes layout text (statements layout sub limit [])
      fun all out => partsAlong all = out.map .stmt := fun _ _ => gives_statements each rfl
  refine .expect fun token c₁ _ => stmts.bind fun out c₂ more inside => .expect fun token' c₃ last => ?_
  refine .pure ⟨by simpa using inside, ?_⟩
  rw [lastKind_own, last]

omit each in
/-- The end of a conditional, whichever way it has an `else`. -/
theorem gives_cond {start : Nat} {condition : Expr} {thenBlock elseBlock : List Stmt}
    (some : tokensAlong elements ≠ []) (begins : start = startOf (tokensAlong elements))
    (first : firstKind elements = Option.some .kwIf)
    (inside : partsAlong elements = .expr condition :: (thenBlock.map .stmt ++ elseBlock.map .stmt))
    (last : lastKind elements = Option.some .rightBrace ∨ lastKind elements = none) :
    Gives layout text before elements c
      (do return .cond (← spanFrom layout start) condition thenBlock elseBlock)
      fun all e => (Node.expr e).Covers layout.lines (tokensAlong all) := by
  refine .spanned some begins (fun s => inside) (fun s => first) (fun s => ?_) fun _ => rfl
  rcases last with last | last <;> simp [last, Node.closings]

theorem reads_cond {rounds : Nat} : Reads layout text (cond layout limit sub rounds) .expr := by
  induction rounds with
  | zero => exact fun _ _ => gives_exhausted
  | succ rounds ih =>
      intro before c
      refine .expect fun token c₁ first => (each .or).bind fun condition c₂ run _ => ?_
      refine (takes_block each).bind fun thenBlock c₃ more ⟨inside, last⟩ => .sees ?_
      -- The three shapes of an `else` end alike.
      split
      next hasElse =>
          refine .advance_seen hasElse fun c₄ word _ => .sees ?_
          split
          · refine ih.stmt.bind fun nested c₅ run' _ => .pure_bind ?_
            refine gives_cond (by simp) (by simp [startOf]) (congrArg Option.some first) ?_ (.inr lastKind_part)
            simp [inside]
          · refine (takes_block each).bind fun elseBlock c₅ more' ⟨inside', last'⟩ => ?_
            refine gives_cond (by simp) (by simp [startOf]) (congrArg Option.some first) ?_
              (.inl (lastKind_append last'))
            simp [inside, inside']
      next =>
          refine .pure_bind ?_
          refine gives_cond (by simp) (by simp [startOf]) (congrArg Option.some first) ?_
            (.inl (lastKind_append last))
          simp [inside]

/-! ## Operands -/

omit each in
/-- A literal or a name covers its token. -/
theorem covers_of_leaf? {token : Token} {e : Expr} (span : token.span = spanOf layout.lines [token])
    (h : leaf? token = some (.ok e)) : (Node.expr e).Covers layout.lines [token] := by
  cases leafOf_of_leaf? h with
  | _ kind => exact .single (by simp [Expr.leafKinds, kind]) span

theorem reads_primary : Reads layout text (primary layout limit sub) .expr := by
  intro before c
  refine .get ?_
  cases found : c.current with
  | none => exact gives_unexpected _
  | some token =>
      -- A leaf takes its token here; the other forms begin with the token that their reader expects.
      cases leaf : leaf? token with
      | some result =>
          simp only [leaf]
          refine .of_past fun past => .advance found fun c₁ => ?_
          cases result with
          | ok e => exact .pure (covers_of_leaf? (past.span_current found) leaf)
          | error error => exact gives_fail error
      | none =>
          simp only [leaf]
          cases token.kind
          case leftParen => exact reads_paren each before c
          case leftBracket => exact reads_list each before c
          case leftBrace => exact reads_tuple each before c
          case percentBrace => exact reads_map each before c
          case kwIf => exact reads_cond each before c
          all_goals exact gives_unexpected _

omit each in
/-- A minus sign in front of a number becomes part of it. -/
theorem covers_negated {token : Token} {e : Expr} {run : List Token} (minus : token.kind = .minus)
    (covers : (Node.expr e).Covers layout.lines run) :
    (Node.expr (negated (spanOf layout.lines (token :: run)) e)).Covers layout.lines (token :: run) := by
  by_cases number : e.isNumber = true
  · -- The number may have taken signs already; this one comes in front of them.
    have leaf : (Node.expr e).opening = none ∧ (Node.expr e).parts = [] := by
      cases e <;> first | exact ⟨rfl, rfl⟩ | cases number
    rcases covers.exists_leaf leaf.1 leaf.2 with ⟨signs, digits, rfl, kind, signed⟩
    have all : ∀ sign ∈ token :: signs, sign.kind = .minus := List.forall_mem_cons.mpr ⟨minus, signed⟩
    rw [← List.cons_append]
    cases e <;> first | exact .leaf kind all (fun _ => rfl) rfl | cases number
  · have signed : negated (spanOf layout.lines (token :: run)) e
        = .unary (spanOf layout.lines (token :: run)) .neg e := by
      cases e <;> first | rfl | exact absurd rfl number
    have row : tokensAlong [.own token, .part (.expr e) run] = token :: run := by simp
    -- In front of any other form the sign stays a token of its own.
    rw [signed, ← row]
    refine .form (by simp) rfl ?_ (congrArg some minus) (List.mem_singleton_self _) rfl
    intro part run' member
    simp only [List.mem_cons, reduceCtorEq, Element.part.injEq, List.not_mem_nil, or_false, false_or] at member
    rcases member with ⟨rfl, rfl⟩
    exact covers

theorem reads_operand : Reads layout text (operand layout limit sub) .expr := by
  intro before c
  refine .currentSpan (.sees ?_)
  split
  next minus =>
      rcases Cursor.exists_of_sees minus with ⟨token, found, kind⟩
      refine .advance found fun c₁ => (each .unary).bind fun e c₂ run covers => ?_
      refine .spanFrom (by simp) (by simp [startOf, found]) (.pure ?_)
      simpa using covers_negated kind covers
  refine .sees ?_
  split
  next negation =>
      rcases Cursor.exists_of_sees negation with ⟨token, found, kind⟩
      refine .advance found fun c₁ => (each .unary).bind fun e c₂ run covers => ?_
      refine .spanned (by simp) (by simp [startOf, found]) (fun s => rfl) (fun s => congrArg some kind)
        (fun s => ?_) fun _ => rfl
      rw [lastKind_part]
      exact List.mem_singleton_self _
  · exact reads_primary each before c

/-! ## Operators -/

section Postfix

variable {left : Expr} {run : List Token} (covers : (Node.expr left).Covers layout.lines run)

include covers

omit each in
/-- A form that stands behind an expression begins where that begins. -/
theorem start_of_target {more : List Element} :
    left.span.start = startOf (tokensAlong ([.part (.expr left) run] ++ more)) := by
  rw [tokensAlong_append, tokensAlong_part, tokensAlong_nil, List.append_nil, startOf_append covers.ne_nil]
  exact covers.start_eq

theorem gives_callOf : Gives layout text before [.part (.expr left) run] c (callOf layout limit sub left)
    fun all e => (Node.expr e).Covers layout.lines (tokensAlong all) := by
  rw [callOf_eq_delimited]
  exact gives_delimited each (fun _ => start_of_target covers) (fun _ _ => rfl) (fun _ _ _ _ => rfl)
    (fun _ _ => List.mem_singleton_self _) fun _ _ => rfl

theorem gives_indexOf : Gives layout text before [.part (.expr left) run] c (indexOf layout limit sub left)
    fun all e => (Node.expr e).Covers layout.lines (tokensAlong all) := by
  rw [indexOf_eq_delimited]
  exact gives_delimited each (fun _ => start_of_target covers) (fun _ _ => rfl) (fun _ _ _ _ => rfl)
    (fun _ _ => List.mem_singleton_self _) fun _ _ => rfl

omit each in
theorem gives_fieldOf : Gives layout text before [.part (.expr left) run] c (fieldOf layout left)
    fun all e => (Node.expr e).Covers layout.lines (tokensAlong all) := by
  refine .expect fun dot c₁ _ => .name fun field c₂ kind => ?_
  refine .spanned (by simp) ?_ (fun s => rfl) (fun s => rfl) (fun s => ?_) fun _ => rfl
  · rw [List.append_assoc]
    exact start_of_target covers
  · rw [lastKind_own, kind]
    exact List.mem_singleton_self _

end Postfix

omit each in
/-- What joins two operands has nothing of its own before, behind or beside them but the operator. -/
theorem combine_form (kind : Kind) (left right : Expr) :
    (Node.expr (combine kind left right)).parts = [.expr left, .expr right] ∧
      (Node.expr (combine kind left right)).opening = none ∧
      none ∈ (Node.expr (combine kind left right)).closings ∧
      (Node.expr (combine kind left right)).span = left.span.join right.span := by
  unfold combine
  simp only
  split <;> exact ⟨rfl, rfl, List.mem_singleton_self _, rfl⟩

omit each in
/-- Two operands and the operator between them, with what is skipped behind it, are covered by the form
that joins them. -/
theorem covers_combine {left right : Expr} {run run' own : List Token} {token : Token} (kind : Kind)
    (past : c.Past layout text before
      ([Element.part (.expr left) run] ++ [Element.own token] ++ own.map Element.own ++
        [Element.part (.expr right) run'])) :
    (Node.expr (combine kind left right)).Covers layout.lines
      (tokensAlong ([Element.part (.expr left) run] ++ [Element.own token] ++ own.map Element.own ++
        [Element.part (.expr right) run'])) := by
  rcases combine_form kind left right with ⟨parts, opening, closing, span⟩
  have first := past.covered (.expr left) run (by simp)
  have second := past.covered (.expr right) run' (by simp)
  have row : tokensAlong ([Element.part (.expr left) run] ++ [Element.own token] ++ own.map Element.own ++
      [Element.part (.expr right) run']) = run ++ (token :: own) ++ run' := by simp
  have stand := past.stand
  rw [row] at stand
  refine .form (by simp) (by simp [parts]) past.covered (opening ▸ rfl) (by rwa [lastKind_part]) ?_
  calc (Node.expr (combine kind left right)).span
      = left.span.join right.span := span
    _ = (spanOf layout.lines run).join (spanOf layout.lines run') := by
        rw [← first.span_eq, ← second.span_eq]
        rfl
    _ = spanOf layout.lines (run ++ (token :: own) ++ run') := stand.join_spanOf first.ne_nil second.ne_nil
    _ = _ := by rw [row]

/-- The loop over operators reads a node, whatever it began with. -/
theorem gives_continuation {least : Precedence} {rounds : Nat} {left : Expr} {run : List Token}
    (covers : (Node.expr left).Covers layout.lines run) :
    Gives layout text before [.part (.expr left) run] c (continuation layout limit sub least rounds left)
      fun all e => (Node.expr e).Covers layout.lines (tokensAlong all) := by
  induction rounds generalizing left run c with
  | zero => exact gives_exhausted
  | succ rounds ih =>
      -- Whatever a round makes of `left` is the one part of the row from which the next round begins.
      have ended : Gives layout text before [.part (.expr left) run] c (Pure.pure left)
          fun all e => (Node.expr e).Covers layout.lines (tokensAlong all) := .pure (by simpa using covers)
      refine .get ?_
      split
      · exact ended
      · exact (gives_callOf each covers).part fun _ _ _ called => ih called
      · exact (gives_indexOf each covers).part fun _ _ _ indexed => ih indexed
      · exact (gives_fieldOf covers).part fun _ _ _ chosen => ih chosen
      next kind _ _ _ seen =>
          cases kind.operator? with
          | none => exact ended
          | some binding =>
              simp only
              split
              · exact ended
              · rcases Option.map_eq_some_iff.mp seen with ⟨token, found, -⟩
                refine .advance found fun c₁ => .skipNewlines fun c₂ own => ?_
                refine (each _).bind fun right c₃ run' _ => ?_
                exact .relabel (covers_combine kind) fun _ joined => ih joined

end Forms

/-- A reader of nested expressions reads nodes. -/
theorem reads_expressionAt (layout : Layout) (text : List Token) (limit : Nat) (least : Precedence) :
    Reads layout text (expressionAt layout limit least) .expr := by
  induction limit generalizing least with
  | zero => exact fun _ _ => gives_exhausted
  | succ limit ih =>
      intro before c
      exact (reads_operand ih).bind fun left c₁ run covers => gives_continuation ih covers

end Reader
end Surface
end Clausal
