import Clausal.Proofs.Decimal.Literal
import Clausal.Proofs.Rendering.Lowers
import Clausal.Proofs.Rendering.Words

/-!
# Shown expressions

`Shown names bindings e t words` says what showing an expression comes to: its text is cut into `words`,
which are a way to write the tree `t`, and in the scope `names` this tree stands for the expression.  The
tree need not be the one that the expression was lowered from: it has the parentheses that showing puts in,
signs are folded into numbers, and a chain of joins is grouped to the right.

There is one rule for each form of expression.  The levels that decide about parentheses when an expression
is shown are those of the operators when it is read (`level_eq_strength`), so an operand fits on its side
(`Operand.fitsLeft`, `Operand.fitsRight`).  A chain of joins, which is shown without parentheses but read
from its right end, is taken apart by `Spelled.attach`.
-/

namespace Clausal

open Token (Kind)
open Clausal.Core (Bindings renderExpr strength parenthesized)
open Surface (Expr Word Spelled WrittenEntry)
open Surface.Word (fixed separated CutsBefore)

/-! ## The table of operators -/

section Levels

variable {op : BinaryOp} {binding : Precedence × Associativity}

/-- An operator is shown as it is read. -/
theorem symbol_eq_text (op : BinaryOp) : op.symbol = (fixed (Surface.operatorKind op)).text := by
  rcases op with op | _ | _
  · cases op <;> rfl
  · rfl
  · rfl

theorem mem_spellings_operator (op : BinaryOp) :
    ((fixed (Surface.operatorKind op)).kind, (fixed (Surface.operatorKind op)).text) ∈
      Kind.spellings := by
  rcases op with op | _ | _
  · cases op <;> decide
  · decide
  · decide

/-- The strength by which parentheses are put in is the level at which operators are read. -/
theorem level_eq_strength (h : binding ∈ (Surface.operatorKind op).operator?) :
    binding.1.level = strength op + 3 := by
  rcases op with op | _ | _
  · cases op <;> cases h <;> rfl
  · cases h
    rfl
  · cases h
    rfl

/-- Of the operators in expressions only joining groups to the right. -/
theorem assoc_eq_right_iff_concat (h : binding ∈ (Surface.operatorKind op).operator?) :
    binding.2 = .right ↔ op = .strict .concat := by
  rcases op with op | _ | _
  · cases op <;> cases h <;> decide
  · cases h
    decide
  · cases h
    decide

end Levels

/-! ## Chains of joins -/

namespace Surface

/-- What binds exactly as tightly as joining is a chain of joins. -/
theorem Expr.concat_of_level {t : Expr} {inner : Precedence × Associativity}
    (h : inner ∈ t.binding?) (level : inner.1.level = Precedence.concat.level) :
    ∃ span left right, t = .binary span (.strict .concat) left right := by
  -- No other operator has the level of joining.
  cases t with
  | binary span op left right =>
      rcases op with op | _ | _
      · cases op with
        | concat => exact ⟨span, left, right, rfl⟩
        | _ =>
            cases h
            cases level
      · cases h
        cases level
      · cases h
        cases level
  | clause | guarded | defaulted =>
      cases h
      cases level
  | _ => cases h

/-- An infix form is written with its operator between its operands. -/
theorem Spelled.operands {span : Span} {op : BinaryOp} {left right : Expr} {words : List Word}
    (spelled : Spelled (.binary span op left right) words) :
    ∃ before after, words = before ++ fixed (operatorKind op) :: after ∧
      Expr.Joined (operatorKind op) left right ∧ Spelled left before ∧ Spelled right after := by
  generalize shape : Expr.binary span op left right = t at spelled
  cases spelled with
  | leaf reads =>
      obtain ⟨out, known, same⟩ := reads .synthetic
      subst shape
      -- No single word is read as an infix form.
      have simple := (Reader.leaf?_sound known).2
      cases out <;> simp_all [Expr.erase, Expr.isSimple]
  | @minus _ e =>
      cases e <;> cases shape
  | infixed form joined first second =>
      subst shape
      cases form
      exact ⟨_, _, rfl, joined, first, second⟩
  | _ => cases shape

/-- A tree is joined to the right end of a chain by writing it behind the chain. -/
theorem Spelled.attach {t last : Expr} {words after : List Word} (first : Spelled t words)
    (second : Spelled last after) (binds : t.Binds .concat) (fits : last.Fits .right .concat .right) :
    Spelled (Lowering.attach t last) (words ++ fixed .concat :: after) := by
  fun_induction Lowering.attach t last generalizing words with
  | case1 span left right last ih =>
      obtain ⟨before, middle, rfl, joined, spelledLeft, spelledRight⟩ := first.operands
      obtain ⟨fitsLeft, fitsRight⟩ := joined (.concat, .right) rfl
      have bindsRight : right.Binds .concat := by
        intro inner member
        rcases fitsRight inner member with tighter | ⟨level, -⟩
        · exact Nat.le_of_lt tighter
        · exact Nat.le_of_eq level.symm
      -- The chain goes on at its right end, which binds no looser than the chain itself.
      have rest := ih spelledRight second bindsRight fits
      have joinedAll : Expr.Joined .concat left (Lowering.attach right last) := by
        rintro _ ⟨⟩
        refine ⟨fitsLeft, fun inner member => .inr ⟨?_, rfl⟩⟩
        rw [Lowering.attach.eq_def] at member
        split at member <;> (cases member; rfl)
      have whole := @Spelled.infixed (.binary span (.strict .concat) left (Lowering.attach right last))
        _ _ _ _ _ rfl joinedAll spelledLeft rest
      simpa using whole
  | case2 t last single =>
      refine @Spelled.infixed (.binary .synthetic (.strict .concat) t last) _ _ _ _ _ rfl ?_ first second
      rintro _ ⟨⟩
      refine ⟨fun inner member => .inl ?_, fits⟩
      -- An operand that binds no tighter would be a chain.
      rcases Nat.lt_or_eq_of_le (binds inner member) with tighter | level
      · exact tighter
      · obtain ⟨span, left, right, rfl⟩ := Expr.concat_of_level member level.symm
        exact absurd rfl (single span left right)

/-- A number that is written is in range. -/
theorem Spelled.natAbs_le {t : Expr} {words : List Word} (spelled : Spelled t words) :
    ∀ span n, t = .integer span n → n.natAbs ≤ Reader.maxInteger := by
  induction spelled with
  | leaf reads =>
      rintro span n rfl
      obtain ⟨out, known, same⟩ := reads .synthetic
      cases out with
      | integer span' m =>
          simp only [Expr.erase, Expr.integer.injEq] at same
          have sound := (Reader.leaf?_sound known).1
          cases sound with
          | node grouped => exact same.2 ▸ grouped rfl
      | _ => simp [Expr.erase] at same
  | @minus span' e _ _ _ ih =>
      intro span n shape
      cases e with
      | integer _ m =>
          cases shape
          simpa using ih _ m rfl
      | _ => cases shape
  | infixed form =>
      rintro span n rfl
      cases form
  | _ => nofun

end Surface

/-! ## Shown expressions -/

namespace Core
namespace Expr

/-- The level and the side of the operator at the root of an expression. -/
def binding? : Core.Expr → Option (Precedence × Associativity)
  | .binary op _ _ => (Surface.operatorKind op).operator?
  | _ => none

/-- An expression that a point behind it takes whole: it has no operator at its root, and if it is a
number, no sign. -/
def StandsAlone : Core.Expr → Prop
  | .unary .. | .binary .. => False
  | .literal value => value.render.toList.head? ≠ some '-'
  | _ => True

end Expr

/-- The text of an entry of a map. -/
def renderEntry (bindings : Bindings) : Core.Expr × Core.Expr → String
  | (.literal (.atom name), value) => name ++ ": " ++ renderExpr bindings value
  | (key, value) => renderExpr bindings key ++ " => " ++ renderExpr bindings value

theorem renderExprs_eq_map (bindings : Bindings) (es : List Core.Expr) :
    renderExprs bindings es = es.map (renderExpr bindings) := by
  induction es with
  | nil => rfl
  | cons e es ih => exact congrArg (renderExpr bindings e :: ·) ih

theorem renderEntries_eq_map (bindings : Bindings) (entries : List (Core.Expr × Core.Expr)) :
    renderEntries bindings entries = entries.map (renderEntry bindings) := by
  induction entries with
  | nil => rfl
  | cons entry rest ih =>
      rcases entry with ⟨key, value⟩
      rw [List.map_cons, ← ih, renderEntries.eq_def]
      split
      · rename_i shape
        cases shape
      · rename_i shape
        cases shape
        rfl
      · rename_i other shape
        cases shape
        rw [renderEntry]
        exact fun name => other name

/-! The texts of the forms that have parts. -/

section Texts

variable (bindings : Bindings) (e : Core.Expr) (es : List Core.Expr)

theorem renderExpr_unary (op : UnaryOp) : renderExpr bindings (.unary op e) =
    match op with
    | .neg => "-" ++ parenthesized e (fun _ => true) (renderExpr bindings e)
    | .not => "not " ++ parenthesized e (fun _ => true) (renderExpr bindings e) := rfl

theorem renderExpr_binary (op : BinaryOp) (left right : Core.Expr) :
    renderExpr bindings (.binary op left right) =
      parenthesized left (· < strength op) (renderExpr bindings left) ++ " " ++ op.symbol ++ " "
        ++ parenthesized right (· ≤ strength op) (renderExpr bindings right) := rfl

theorem renderExpr_field (name : String) :
    renderExpr bindings (.field e name) = renderExpr bindings e ++ "." ++ name := rfl

theorem renderExpr_call (callee : Callee) : renderExpr bindings (.call callee es) =
    callee.render ++ "(" ++ commaSeparated (es.map (renderExpr bindings)) ++ ")" := by
  rw [← renderExprs_eq_map]
  rfl

theorem renderExpr_list : renderExpr bindings (.list es) =
    "[" ++ commaSeparated (es.map (renderExpr bindings)) ++ "]" := by
  rw [← renderExprs_eq_map]
  rfl

theorem renderExpr_listTail : renderExpr bindings (.listTail es e) =
    "[" ++ commaSeparated (es.map (renderExpr bindings)) ++ " | " ++ renderExpr bindings e ++ "]" := by
  rw [← renderExprs_eq_map]
  rfl

theorem renderExpr_tuple : renderExpr bindings (.tuple es) =
    inBraces (commaSeparated (es.map (renderExpr bindings))) := by
  rw [← renderExprs_eq_map]
  rfl

theorem renderExpr_map (entries : List (Core.Expr × Core.Expr)) :
    renderExpr bindings (.map entries) =
      "%" ++ inBraces (commaSeparated (entries.map (renderEntry bindings))) := by
  rw [← renderEntries_eq_map]
  rfl

end Texts

end Core

namespace Lowering

/-- An expression is shown as `words`, which are a way to write the tree `t`, and the tree stands for the
expression. -/
structure Shown (names : Names) (bindings : Bindings) (e : Core.Expr) (t : Expr) (words : List Word) :
    Prop where
  spelled : Spelled t words
  cuts : CutsBefore (renderExpr bindings e).toList words
  denotes : Denotes names t e
  binding : t.binding? = e.binding?
  unsigned : e.StandsAlone → Word.Unsigned words

/-- The same for an entry of a map. -/
structure ShownEntry (names : Names) (bindings : Bindings) (entry : Core.Expr × Core.Expr)
    (written : WrittenEntry) : Prop where
  loose : written.Loose
  spelled : ∀ part ∈ written.parts, Spelled part.1 part.2
  cuts : CutsBefore (Core.renderEntry bindings entry).toList written.words
  denotes : DenotesEntry names written.tree entry

/-- An expression in parentheses if a test on its strength asks for them, as an operand is shown. -/
structure Operand (names : Names) (bindings : Bindings) (e : Core.Expr) (test : Nat → Bool) (t : Expr)
    (words : List Word) : Prop where
  spelled : Spelled t words
  cuts : CutsBefore (parenthesized e test (renderExpr bindings e)).toList words
  denotes : Denotes names t e
  /-- An operator is left at the root only if the test fails. -/
  root : ∀ inner ∈ t.binding?, ∃ op, inner ∈ (Surface.operatorKind op).operator? ∧
    test (strength op) = false

namespace Shown

variable {names : Names} {bindings : Bindings} {e : Core.Expr} {t : Expr} {words : List Word}

/-! ### Operands -/

theorem paren (inner : Shown names bindings e t words) :
    Spelled (.paren .synthetic [t]) (fixed .leftParen :: (words ++ [fixed .rightParen])) := by
  have whole := @Spelled.paren .synthetic [(t, words)] (by simpa using inner.spelled)
  simpa [separated] using whole

theorem operand (inner : Shown names bindings e t words) (test : Nat → Bool) :
    ∃ t words, Operand names bindings e test t words := by
  cases e with
  | binary op left right =>
      -- A looser operator is shown in parentheses.
      cases tested : test (strength op) with
      | true =>
          refine ⟨_, _, inner.paren, ?_, inner.denotes.paren, nofun⟩
          have whole := inner.cuts.paren
          simpa [parenthesized, tested] using whole
      | false =>
          refine ⟨t, words, inner.spelled, ?_, inner.denotes, fun found member => ⟨op, ?_, tested⟩⟩
          · have whole := inner.cuts
            simpa [parenthesized, tested] using whole
          · rwa [inner.binding] at member
  | _ =>
      refine ⟨t, words, inner.spelled, inner.cuts, inner.denotes, ?_⟩
      rw [inner.binding]
      nofun

end Shown

namespace Operand

variable {names : Names} {bindings : Bindings} {op : BinaryOp} {binding : Precedence × Associativity}
  {e : Core.Expr} {t : Expr} {words : List Word}

theorem single (operand : Operand names bindings e (fun _ => true) t words) : t.binding? = none := by
  refine Option.eq_none_iff_forall_not_mem.mpr fun inner member => ?_
  obtain ⟨_, -, failed⟩ := operand.root inner member
  cases failed

/-- A left operand binds at least as tightly as its operator. -/
theorem binds (operand : Operand names bindings e (· < strength op) t words)
    (operator : binding ∈ (Surface.operatorKind op).operator?) : t.Binds binding.1 := by
  intro inner member
  obtain ⟨other, known, weaker⟩ := operand.root inner member
  have strong : strength op ≤ strength other := by simpa using weaker
  rw [level_eq_strength operator, level_eq_strength known]
  omega

theorem fitsLeft (operand : Operand names bindings e (· < strength op) t words)
    (operator : binding ∈ (Surface.operatorKind op).operator?) (plain : op ≠ .strict .concat) :
    t.Fits .left binding.1 binding.2 := by
  have left : binding.2 = .left := by
    have notRight := mt (assoc_eq_right_iff_concat operator).mp plain
    cases side : binding.2 with
    | left => rfl
    | right => exact absurd side notRight
  intro inner member
  rcases Nat.lt_or_eq_of_le (operand.binds operator inner member) with tighter | same
  · exact .inl tighter
  · exact .inr ⟨same.symm, left⟩

/-- A right operand binds tighter than its operator. -/
theorem fitsRight (operand : Operand names bindings e (· ≤ strength op) t words)
    (operator : binding ∈ (Surface.operatorKind op).operator?) :
    t.Fits .right binding.1 binding.2 := by
  intro inner member
  obtain ⟨other, known, weaker⟩ := operand.root inner member
  have strong : strength op < strength other := by simpa using weaker
  rw [level_eq_strength operator, level_eq_strength known]
  exact .inl (by omega)

end Operand

namespace Shown

variable {names : Names} {bindings : Bindings} {e : Core.Expr} {t : Expr} {words : List Word}

/-! ### Operators -/

theorem unary (inner : Shown names bindings e t words) (op : UnaryOp) :
    ∃ t words, Shown names bindings (.unary op e) t words := by
  obtain ⟨t, words, operand⟩ := inner.operand fun _ => true
  cases op with
  | neg =>
      refine ⟨_, _, @Spelled.minus .synthetic _ _ operand.single operand.spelled, ?_,
        operand.denotes.negated operand.spelled.natAbs_le, ?_, nofun⟩
      · have whole := Word.cutsBefore_minus operand.cuts operand.spelled.starts
        simpa [Core.renderExpr_unary] using whole
      · cases t <;> rfl
  | not =>
      refine ⟨_, _, @Spelled.negation .synthetic _ _ operand.single operand.spelled, ?_,
        operand.denotes.unary .not, rfl, nofun⟩
      have whole := @Word.cutsBefore_spaced _ _ .kwNot (by decide) operand.cuts
      have keyword : (fixed .kwNot).text.toList = ['n', 'o', 't'] := rfl
      rw [keyword] at whole
      simpa [Core.renderExpr_unary] using whole

theorem binary {left right : Core.Expr} {t₁ t₂ : Expr} {before after : List Word} (op : BinaryOp)
    (first : Shown names bindings left t₁ before) (second : Shown names bindings right t₂ after) :
    ∃ t words, Shown names bindings (.binary op left right) t words := by
  obtain ⟨t₁, before, onLeft⟩ := first.operand (· < strength op)
  obtain ⟨t₂, after, onRight⟩ := second.operand (· ≤ strength op)
  have cuts : CutsBefore (renderExpr bindings (.binary op left right)).toList
      (before ++ fixed (Surface.operatorKind op) :: after) := by
    have whole := onLeft.cuts.joined (mem_spellings_operator op) onRight.cuts
    simpa [Core.renderExpr_binary, symbol_eq_text] using whole
  by_cases joins : op = .strict .concat
  · -- A chain on the left is shown without parentheses, and read from its right end.
    subst joins
    refine ⟨attach t₁ t₂, _, onLeft.spelled.attach onRight.spelled (onLeft.binds rfl)
      (onRight.fitsRight rfl), cuts, onLeft.denotes.attach onRight.denotes, ?_, nofun⟩
    rw [attach.eq_def]
    split <;> rfl
  · refine ⟨.binary .synthetic op t₁ t₂, _, .infixed rfl ?_ onLeft.spelled onRight.spelled, cuts,
      onLeft.denotes.binary op onRight.denotes, rfl, nofun⟩
    exact fun binding operator => ⟨onLeft.fitsLeft operator joins, onRight.fitsRight operator⟩

theorem field {name : String} (inner : Shown names bindings e t words) (alone : e.StandsAlone)
    (identifier : Token.IsIdentifier name) :
    ∃ t words, Shown names bindings (.field e name) t words := by
  have unsigned := inner.unsigned alone
  have single : t.binding? = none := by
    rw [inner.binding]
    cases e <;> first | rfl | cases alone
  refine ⟨_, _, @Spelled.field .synthetic _ _ _ single unsigned inner.spelled, ?_,
    inner.denotes.field name, rfl, fun _ => unsigned.append (by simp [Word.Unsigned, fixed])⟩
  have whole := inner.cuts.field identifier
  simpa [Core.renderExpr_field] using whole

/-! ### Rows -/

section Rows

variable {rows : List (Core.Expr × Expr × List Word)}
  (each : ∀ row ∈ rows, Shown names bindings row.1 row.2.1 row.2.2)

include each

theorem denotes_row :
    List.Forall₂ (Denotes names) ((rows.map Prod.snd).map Prod.fst) (rows.map Prod.fst) := by
  rw [List.map_map, List.forall₂_map_left_iff, List.forall₂_map_right_iff, List.forall₂_same]
  exact fun row member => (each row member).denotes

theorem spelled_row : ∀ item ∈ rows.map Prod.snd, Spelled item.1 item.2 :=
  List.forall_mem_map.mpr fun row member => (each row member).spelled

theorem cuts_row : ∀ row ∈ rows, CutsBefore (renderExpr bindings row.1).toList row.2.2 :=
  fun row member => (each row member).cuts

theorem list :
    ∃ t words, Shown names bindings (.list (rows.map Prod.fst)) t words := by
  refine ⟨_, _, @Spelled.list .synthetic _ (spelled_row each), ?_, .list (denotes_row each), rfl,
    fun _ => by simp [Word.Unsigned, fixed]⟩
  have whole := @Value.cuts_delimited _ _ _ _ (cuts_row each) .leftBracket .rightBracket rfl rfl "[" "]"
    rfl rfl fun text => Word.ends_cons (by decide) text
  simpa [Core.renderExpr_list, Core.commaSeparated, Function.comp_def] using whole

theorem tuple :
    ∃ t words, Shown names bindings (.tuple (rows.map Prod.fst)) t words := by
  refine ⟨_, _, @Spelled.tuple .synthetic _ (spelled_row each), ?_, .tuple (denotes_row each), rfl,
    fun _ => by simp [Word.Unsigned, fixed]⟩
  have whole := @Value.cuts_delimited _ _ _ _ (cuts_row each) .leftBrace .rightBrace rfl rfl "\x7b" "\x7d"
    rfl rfl fun text => Word.ends_cons (by decide) text
  simpa [Core.renderExpr_tuple, Core.commaSeparated, Core.inBraces, Function.comp_def]
    using whole

theorem listTail (nonempty : rows ≠ []) (last : Shown names bindings e t words) :
    ∃ t words, Shown names bindings (.listTail (rows.map Prod.fst) e) t words := by
  refine ⟨_, _, @Spelled.listTail .synthetic _ _ _ (by simpa using nonempty) (spelled_row each) last.spelled,
    ?_, .listTail (denotes_row each) last.denotes, rfl, fun _ => by simp [Word.Unsigned, fixed]⟩
  have whole := Word.cutsBefore_listTail (cuts_row each) last.cuts
  simpa [Core.renderExpr_listTail, Core.commaSeparated, Function.comp_def] using whole

theorem call {callee : Expr} {target : Core.Callee} (resolved : lowerCallee names callee = .ok target)
    (writable : callee.Writable) :
    ∃ t words, Shown names bindings (.call target (rows.map Prod.fst)) t words := by
  obtain ⟨spelled, cuts, unsigned, single⟩ := spelled_of_path (path?_of_lowerCallee resolved) writable
  refine ⟨_, _, @Spelled.call .synthetic _ _ _ single unsigned spelled (spelled_row each), ?_,
    .call resolved (denotes_row each), rfl, fun _ => unsigned.append (by simp [Word.Unsigned, fixed])⟩
  have whole := cuts.call (cuts_row each)
  simpa [Core.renderExpr_call, Core.commaSeparated, Function.comp_def] using whole

end Rows

/-! ### Maps -/

/-- The key of an entry that is no atom is shown before an arrow. -/
theorem keyed {key value : Core.Expr} {t₁ t₂ : Expr} {before after : List Word}
    (first : Shown names bindings key t₁ before) (second : Shown names bindings value t₂ after)
    (plain : ∀ name, key ≠ .literal (.atom name)) :
    ShownEntry names bindings (key, value) (.keyed (t₁, before) (t₂, after)) where
  loose := by
    intro inner member
    rw [first.binding] at member
    cases key with
    | binary op =>
        have level := level_eq_strength member
        rw [level]
        rcases op with op | _ | _
        · cases op <;> decide
        · decide
        · decide
    | _ => cases member
  spelled := by simpa [WrittenEntry.parts] using And.intro first.spelled second.spelled
  cuts := by
    have whole := @CutsBefore.joined _ _ _ _ .fatArrow (by decide) first.cuts second.cuts
    have arrow : (fixed .fatArrow).text.toList = ['=', '>'] := rfl
    rw [arrow] at whole
    rw [Core.renderEntry]
    · simpa [WrittenEntry.words] using whole
    · exact plain
  denotes := ⟨first.denotes, second.denotes⟩

/-- An atom that is a key is shown as a name before a colon. -/
theorem named {name : String} {value : Core.Expr} (identifier : Token.IsIdentifier name)
    (second : Shown names bindings value t words) :
    ShownEntry names bindings (.literal (.atom name), value) (.named .synthetic name (t, words)) where
  loose := trivial
  spelled := by simpa [WrittenEntry.parts] using second.spelled
  cuts := by
    have whole := Word.cutsBefore_named identifier second.cuts
    simpa [Core.renderEntry, WrittenEntry.words] using whole
  denotes := ⟨Lowers.denotes fun table => rfl, second.denotes⟩

theorem map {rows : List ((Core.Expr × Core.Expr) × WrittenEntry)}
    (each : ∀ row ∈ rows, ShownEntry names bindings row.1 row.2) :
    ∃ t words, Shown names bindings (.map (rows.map Prod.fst)) t words := by
  have denotes : List.Forall₂ (DenotesEntry names) ((rows.map Prod.snd).map WrittenEntry.tree)
      (rows.map Prod.fst) := by
    rw [List.map_map, List.forall₂_map_left_iff, List.forall₂_map_right_iff, List.forall₂_same]
    exact fun row member => (each row member).denotes
  refine ⟨_, _, @Spelled.map .synthetic _ (List.forall_mem_map.mpr fun row member => (each row member).loose)
    (List.forall_mem_map.mpr fun row member => (each row member).spelled), ?_, .map denotes, rfl,
    fun _ => by simp [Word.Unsigned, fixed]⟩
  have whole := @Value.cuts_delimited _ _ _ _ (fun row member => (each row member).cuts)
    .percentBrace .rightBrace rfl rfl "%\x7b" "\x7d" rfl rfl fun text => Word.ends_cons (by decide) text
  simpa [Core.renderExpr_map, Core.commaSeparated, Core.inBraces, Function.comp_def]
    using whole

end Shown
end Lowering
end Clausal
