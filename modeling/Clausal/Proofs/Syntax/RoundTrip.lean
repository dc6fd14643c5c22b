import Clausal.Proofs.Syntax.Spelling

/-!
# Written expressions read back

Operators are read from the left: the reader takes the leftmost operand of a tree and extends it
form by form.  `Reader.reaches` follows this path up to the root of the tree, by induction on the
tree; what lies to the right of an operator, and everything between delimiters, is read by nested
readers.

The main result joins this to the soundness of reading: an expression that is read needs no further
parentheses, and one that needs none reads back from its words.
-/

namespace Clausal
namespace Surface

open Token (Kind)
open Word (fixed separated)

namespace Reader

open Cursor (headKind)

section Spine

variable {layout : Layout} {limit depth : Nat} {sub : Precedence → Reader Expr} {c : Cursor}
  {rest : List Word}

variable {least : Precedence} {rounds : Nat} {e : Expr}

/-! ## One round of the loop -/

/-- From the tree `out` before the cursor, a round of the loop comes to the tree `e` before the
words `rest`. -/
def Round (layout : Layout) (limit : Nat) (sub : Precedence → Reader Expr) (least : Precedence)
    (c : Cursor) (out e : Expr) (rest : List Word) : Prop :=
  ∃ out' c', out'.erase = e.erase ∧ c'.Ahead rest ∧ ∀ left,
    continuation layout limit sub least (left + 1) out c =
      continuation layout limit sub least left out' c'

/-- A round that begins with a postfix form ends behind it. -/
theorem round_of_run {form : Reader Expr} {out : Expr}
    (step : ∀ left, continuation layout limit sub least (left + 1) out c =
      (form >>= continuation layout limit sub least left) c)
    (run : Run form c rest fun out => out.erase = e.erase) :
    Round layout limit sub least c out e rest := by
  obtain ⟨out', c', done, same, ahead⟩ := run.exists_run
  exact ⟨out', c', same, ahead, fun left => (step left).trans (bind_of_ok done)⟩

section Postfix

variable {out target : Expr} {words : List Word} {args : List (Expr × List Word)} {span : Span}
  {name : String}

theorem round_of_field (same : out.erase = target.erase)
    (ahead : c.Ahead (fixed .dot :: .ident name :: rest)) :
    Round layout limit sub least c out (.field span target name) rest := by
  refine round_of_run (fun _ => continuation_of_dot ahead.kind?_eq) ?_
  refine (run_expect ahead).bind fun _ c₁ _ ahead => ?_
  refine (run_takeAs ahead rfl).bind fun token c₂ text ahead => ?_
  refine (run_spanFrom ahead).bind fun span c₃ _ ahead => ?_
  exact .pure (by rw [Expr.erase, Expr.erase, same, text]; rfl) ahead

theorem round_of_call (recovers : Recovers depth sub) (within : depth ≤ limit)
    (same : out.erase = target.erase) (each : ∀ arg ∈ args, Spelled arg.1 arg.2)
    (short : (separated (args.map Prod.snd)).length < depth)
    (ahead : c.Ahead
      (fixed .leftParen :: (separated (args.map Prod.snd) ++ fixed .rightParen :: rest))) :
    Round layout limit sub least c out (.call span target (args.map Prod.fst)) rest := by
  refine round_of_run (fun _ => continuation_of_leftParen ahead.kind?_eq) ?_
  rw [callOf_eq_delimited]
  refine run_delimited_of_spelled recovers within rfl (fun span trees equal => ?_) each short ahead
  rw [Expr.erase, Expr.erase, same, equal]

theorem round_of_index (recovers : Recovers depth sub) (within : depth ≤ limit)
    (same : out.erase = target.erase) (each : ∀ arg ∈ args, Spelled arg.1 arg.2)
    (short : (separated (args.map Prod.snd)).length < depth)
    (ahead : c.Ahead
      (fixed .leftBracket :: (separated (args.map Prod.snd) ++ fixed .rightBracket :: rest))) :
    Round layout limit sub least c out (.index span target (args.map Prod.fst)) rest := by
  refine round_of_run (fun _ => continuation_of_leftBracket ahead.kind?_eq) ?_
  rw [indexOf_eq_delimited]
  refine run_delimited_of_spelled recovers within rfl (fun span trees equal => ?_) each short ahead
  rw [Expr.erase, Expr.erase, same, equal]

end Postfix

/-- A round that begins with an operator ends behind its right operand. -/
theorem round_of_operator (recovers : Recovers depth sub) {left right : Expr} {kind : Kind}
    {words : List Word} {binding : Precedence × Associativity}
    (form : e.operands? = some (kind, left, right)) (operator : binding ∈ kind.operator?)
    (tight : least.level ≤ binding.1.level) (spelled : Spelled right words)
    (short : words.length < depth) (binds : right.Binds (binding.2.rightOperand binding.1))
    (stops : Stops (binding.2.rightOperand binding.1) (headKind rest)) {out : Expr}
    (same : out.erase = left.erase) (ahead : c.Ahead (fixed kind :: (words ++ rest))) :
    Round layout limit sub least c out e rest := by
  have run : Run (sub (binding.2.rightOperand binding.1)) c.advance rest fun out =>
      out.erase = right.erase :=
    recovers _ right words c.advance rest spelled short binds stops ahead.advance
  obtain ⟨out', c', done, sameRight, ahead'⟩ := run.exists_run
  refine ⟨combine kind out out', c', Expr.erase_combine form same sameRight, ahead', ?_⟩
  intro count
  have next : c.kind? = some kind := ahead.kind?_eq
  have moved : (advance : Reader Unit) c = .ok () c.advance := rfl
  have stayed : (skipNewlines : Reader Unit) c.advance = .ok () c.advance :=
    skipNewlines_of_ahead ahead.advance
  rw [continuation_of_operator next operator tight, bind_of_ok moved, bind_of_ok stayed,
    bind_of_ok done]

/-! ## The way from the leftmost operand to the root -/

/-- Reading an operand and continuing it comes to the tree `e` before the words `rest`, with fewer
rounds used than `e` has words. -/
def Reaches (layout : Layout) (limit : Nat) (sub : Precedence → Reader Expr) (least : Precedence)
    (rounds : Nat) (c : Cursor) (e : Expr) (words rest : List Word) : Prop :=
  ∃ out c' left, out.erase = e.erase ∧ c'.Ahead rest ∧ rounds < left + words.length ∧
    (operand layout limit sub >>= continuation layout limit sub least rounds) c =
      continuation layout limit sub least left out c'

variable {words : List Word}

theorem reaches_of_operand (spelled : Spelled e words)
    (run : Run (operand layout limit sub) c rest fun out => out.erase = e.erase) :
    Reaches layout limit sub least rounds c e words rest := by
  obtain ⟨out, c', done, same, ahead⟩ := run.exists_run
  have positive := spelled.starts.length_pos
  exact ⟨out, c', rounds, same, ahead, by omega, bind_of_ok done⟩

/-- A round takes at least one word, so there are rounds left while there are words. -/
theorem Reaches.step {part : Expr} {before after : List Word}
    (reaches : Reaches layout limit sub least rounds c part before (after ++ rest))
    (longer : 0 < after.length) (enough : before.length + after.length ≤ rounds)
    (round : ∀ out c', out.erase = part.erase → c'.Ahead (after ++ rest) →
      Round layout limit sub least c' out e rest) :
    Reaches layout limit sub least rounds c e (before ++ after) rest := by
  obtain ⟨out, c', left, same, ahead, spare, reached⟩ := reaches
  obtain ⟨left, rfl⟩ : ∃ k, left = k + 1 := ⟨left - 1, by omega⟩
  obtain ⟨out', c'', same', ahead', moved⟩ := round out c' same ahead
  refine ⟨out', c'', left, same', ahead', ?_, reached.trans (moved left)⟩
  rw [List.length_append]
  omega

/-- The token `next` may stand behind `e`, written as `words`: it neither applies nor regroups a part
of `e`. -/
def Admits (e : Expr) (words : List Word) (next : Option Kind) : Prop :=
  ∀ kind ∈ next, (kind.opensPostfix = true → e.binding? = none ∧ Word.Unsigned words) ∧
    ∀ inner ∈ e.binding?, ∀ outer ∈ kind.operator?,
      outer.1.level < (inner.2.rightOperand inner.1).level

section Admits

variable {next : Option Kind}

theorem admits_of_stops (binds : e.Binds least) (stops : Stops least next) : Admits e words next := by
  intro kind member
  have follows := Expr.follows_of_stops binds stops kind member
  exact ⟨fun opens => absurd (stops kind member).1 (by simp [opens]), follows.2⟩

/-- Anything may follow the target of a postfix form. -/
theorem admits_of_unsigned (single : e.binding? = none) (unsigned : Word.Unsigned words) :
    Admits e words next := by
  intro kind _
  refine ⟨fun _ => ⟨single, unsigned⟩, ?_⟩
  rw [single]
  nofun

/-- An operator may follow its left operand. -/
theorem admits_of_follows {kind : Kind} {binding : Precedence × Associativity}
    (operator : binding ∈ kind.operator?) (follows : e.Follows (some kind)) :
    Admits e words (some kind) := by
  rintro _ ⟨⟩
  refine ⟨fun opens => ?_, (follows kind rfl).2⟩
  rw [Kind.opensPostfix_of_operator operator] at opens
  cases opens

/-- What may follow an infix form ends the reading of its right operand. -/
theorem Admits.stops {binding : Precedence × Associativity} (admits : Admits e words next)
    (bound : binding ∈ e.binding?) : Stops (binding.2.rightOperand binding.1) next := by
  intro kind member
  refine ⟨?_, (admits kind member).2 binding bound⟩
  by_contra opens
  have single := ((admits kind member).1 (by simpa using opens)).1
  rw [single] at bound
  cases bound

/-- What may follow a signed form ends the reading of its operand. -/
theorem Admits.stops_unary (admits : Admits e words next) (signed : ¬ Word.Unsigned words) :
    Stops .unary next := by
  intro kind member
  refine ⟨?_, fun _ found => Kind.level_lt_unary found⟩
  by_contra opens
  exact signed ((admits kind member).1 (by simpa using opens)).2

end Admits

/-- Every tree is reached from its leftmost operand, however it is written. -/
theorem reaches (recovers : Recovers depth sub) (within : depth ≤ limit)
    (spelled : Spelled e words) (short : words.length ≤ depth) (enough : depth ≤ rounds)
    (binds : e.Binds least) (admits : Admits e words (headKind rest))
    (ahead : c.Ahead (words ++ rest)) :
    Reaches layout limit sub least rounds c e words rest := by
  induction spelled generalizing rest with
  | @leaf e word reads =>
      exact reaches_of_operand (.leaf reads) (run_operand_of_leaf ahead reads)
  | minus single inner =>
      have stops := admits.stops_unary (by simp [Word.Unsigned, fixed])
      exact reaches_of_operand (.minus single inner)
        (run_operand_of_signed recovers single inner short stops ahead)
  | negation single inner =>
      have stops := admits.stops_unary (by simp [Word.Unsigned, fixed])
      exact reaches_of_operand (.negation single inner)
        (run_operand_of_negation recovers single inner short stops ahead)
  | @infixed e left right kind before after form joined first second ih =>
      -- The operator may follow its left operand, and the right one is read at its level.
      obtain ⟨binding, operator⟩ := Expr.operator_of_operands form
      obtain ⟨follows, bindsRight⟩ := (Expr.joined_iff operator).mp joined
      have bound : binding ∈ e.binding? := Expr.binding?_of_operands form ▸ operator
      have tight : least.level ≤ binding.1.level := binds binding bound
      have bindsLeft : left.Binds least := by
        intro inner found
        have fits := (Expr.fits_left_iff operator).mpr follows inner found
        omega
      rw [List.append_assoc] at ahead
      simp only [List.length_append, List.length_cons] at short
      have reached := ih (by omega) bindsLeft (admits_of_follows operator follows) ahead
      refine reached.step (by simp) (by simp only [List.length_cons]; omega) ?_
      intro out c' same ahead
      exact round_of_operator recovers form operator tight second (by omega) bindsRight
        (admits.stops bound) same ahead
  | field single unsigned inner ih =>
      rw [List.append_assoc] at ahead
      simp only [List.length_append, List.length_cons] at short
      have reached := ih (by omega) (Expr.binds_of_binding?_none single)
        (admits_of_unsigned single unsigned) ahead
      refine reached.step (by simp) (by simp only [List.length_cons]; omega) ?_
      exact fun out c' same ahead => round_of_field same ahead
  | call single unsigned inner each ih =>
      rw [List.append_assoc] at ahead
      simp only [List.length_append, List.length_cons] at short
      have reached := ih (by omega) (Expr.binds_of_binding?_none single)
        (admits_of_unsigned single unsigned) ahead
      refine reached.step (by simp) (by simp only [List.length_append, List.length_cons]; omega) ?_
      intro out c' same ahead
      exact round_of_call recovers within same each (by omega) (by simpa using ahead)
  | index single unsigned inner each ih =>
      rw [List.append_assoc] at ahead
      simp only [List.length_append, List.length_cons] at short
      have reached := ih (by omega) (Expr.binds_of_binding?_none single)
        (admits_of_unsigned single unsigned) ahead
      refine reached.step (by simp) (by simp only [List.length_append, List.length_cons]; omega) ?_
      intro out c' same ahead
      exact round_of_index recovers within same each (by omega) (by simpa using ahead)
  | paren each =>
      refine reaches_of_operand (.paren each) (run_operand_of_form ahead rfl fun c ahead => ?_)
      simp only [List.length_cons, List.length_append] at short
      rw [paren_eq_delimited]
      refine run_delimited_of_spelled recovers within rfl (fun span trees same => ?_) each
        (by omega) (by simpa using ahead)
      rw [Expr.erase, Expr.erase, same]
  | tuple each =>
      refine reaches_of_operand (.tuple each) (run_operand_of_form ahead rfl fun c ahead => ?_)
      simp only [List.length_cons, List.length_append] at short
      rw [tuple_eq_delimited]
      refine run_delimited_of_spelled recovers within rfl (fun span trees same => ?_) each
        (by omega) (by simpa using ahead)
      rw [Expr.erase, Expr.erase, same]
  | list each =>
      simp only [List.length_cons, List.length_append] at short
      refine reaches_of_operand (.list each) ((run_operand_of_list recovers within none (by simp) each
        (by simp) (by omega) (by simp) (by simpa [tailWords] using ahead)).mono ?_)
      exact fun out same => same _
  | @listTail span items tail words nonempty each last =>
      simp only [List.length_cons, List.length_append] at short
      have shortTail : words.length < depth := by omega
      refine reaches_of_operand (.listTail nonempty each last)
        ((run_operand_of_list recovers within (some (tail, words)) (fun _ => nonempty) each
          (by simpa using last) (by omega) (by simpa using shortTail)
          (by simpa [tailWords] using ahead)).mono ?_)
      exact fun out same => same _
  | map loose each =>
      simp only [List.length_cons, List.length_append] at short
      exact reaches_of_operand (.map loose each) (run_operand_of_map recovers within loose each
        (by omega) (by simpa using ahead))

end Spine

/-! ## Whole texts -/

/-- A nested reader reads back every spelling that has fewer words than the reader has steps. -/
theorem expressionAt_recovers (layout : Layout) (limit : Nat) :
    Recovers limit (expressionAt layout limit) := by
  induction limit with
  | zero =>
      intro least e words c rest _ short
      exact absurd short (Nat.not_lt_zero _)
  | succ limit ih =>
      intro least e words c rest spelled short binds stops ahead
      obtain ⟨out, c', left, same, ahead', spare, reached⟩ :=
        reaches ih (Nat.le_succ limit) spelled (Nat.le_of_lt_succ short) (Nat.le_succ limit) binds
          (admits_of_stops binds stops) ahead
      -- There were more rounds than words, so one is left in which the loop ends.
      obtain ⟨left, rfl⟩ : ∃ k, left = k + 1 := ⟨left - 1, by omega⟩
      have ends : Stops least c'.kind? := ahead'.kind?_eq ▸ stops
      rw [expressionAt, expressionWith]
      exact Ensures.step (reached.trans (continuation_of_stops ends)) ⟨same, ahead'⟩

end Reader

/-- The words of a text are ahead of the first cursor. -/
theorem ahead_ofLexemes {lexemes : List Token.Lexeme} {words : List Word}
    (scanned : lexemes.map Word.ofLexeme? = words.map some)
    (solid : ∀ word ∈ words, word.kind ≠ .newline ∧ word.kind ≠ .comment) :
    (Cursor.ofLexemes lexemes).Ahead words := by
  -- No token is a comment, so none is left out.
  have kept : lexemes.filter (fun l => !Cursor.isComment l) = lexemes := by
    refine List.filter_eq_self.mpr fun lexeme member => ?_
    cases lexeme with
    | error => rfl
    | ok token =>
        have known : some ⟨token.kind, token.text⟩ ∈ words.map some :=
          scanned ▸ List.mem_map_of_mem member
        obtain ⟨word, inside, same⟩ := List.mem_map.mp known
        have noComment := (solid word inside).2
        rw [Option.some.inj same] at noComment
        simpa [Cursor.isComment] using noComment
  unfold Cursor.ofLexemes
  rw [kept]
  exact Cursor.ahead_of_words 0 scanned fun word member => (solid word member).1

/-- A text is read whole if its words are. -/
theorem parseExpression_of_words {source : List Char} {words : List Word} {P : Expr → Prop}
    (scanned : (Token.scan source).map Word.ofLexeme? = words.map some)
    (solid : ∀ word ∈ words, word.kind ≠ .newline ∧ word.kind ≠ .comment)
    (reads : ∀ c, c.Ahead words →
      Reader.Run (Reader.expressionAt (Layout.ofText source) (words.length + 1) .lowest) c [] P) :
    ∃ out, parseExpression source = .ok out ∧ P out := by
  have ahead := ahead_ofLexemes scanned solid
  have count : (Token.scan source).length = words.length := by
    simpa using congrArg List.length scanned
  have start := Reader.skipNewlines_of_ahead ahead
  obtain ⟨out, c, done, holds, ended⟩ := (reads _ ahead).exists_run
  refine ⟨out, ?_, holds⟩
  have nothing : c.current = none := by simpa [Cursor.kind?] using ended.kind?_eq
  have finish : Reader.skipSeparators c = .ok () c := by
    change EStateM.Result.ok () (Cursor.skip Kind.isSeparator c) = _
    rw [Cursor.skip, Cursor.remaining, nothing]
    rfl
  unfold parseExpression readExpression
  simp only [EStateM.run, count]
  rw [Reader.bind_of_ok start, Reader.bind_of_ok done, Reader.bind_of_ok finish, Reader.get_bind,
    nothing]
  simp only
  rw [Reader.get_bind, ended.clean]
  rfl

/-- A text that is cut into a spelling of a tree reads as the tree. -/
theorem parseExpression_of_spelled {source : List Char} {words : List Word} {e : Expr}
    (scanned : (Token.scan source).map Word.ofLexeme? = words.map some)
    (spelled : Spelled e words) : ∃ out, parseExpression source = .ok out ∧ out.erase = e.erase := by
  refine parseExpression_of_words scanned spelled.solid fun c ahead => ?_
  exact Reader.expressionAt_recovers _ _ .lowest e words c [] spelled (Nat.lt_succ_self _)
    e.binds_lowest nofun (by simpa using ahead)

namespace Expr

/-- A primary or postfix form does not begin with a sign. -/
theorem OperatorCorrect.unsigned {e : Expr} (correct : e.OperatorCorrect)
    (simple : e.isSimple = true) : Word.Unsigned e.spell := by
  induction correct with
  | @node e root parts ih =>
      -- A postfix form begins as its target does.
      rcases applied : e.target? with _ | ⟨target, words⟩
      · cases e with
        | integer _ n =>
            have positive : ¬ n < 0 := by simpa [isSimple] using simple
            simp [spell, positive, Word.Unsigned, Word.integer]
        | bool _ b => cases b <;> simp [spell, Word.Unsigned, fixed]
        | text | atom | nil | ident =>
            simp [spell, Word.Unsigned, Word.quoted, Word.atom, Word.ident, fixed]
        | paren | list | listTail | tuple | map => simp [spell, Word.Unsigned, fixed]
        | unary | binary | clause | guarded | defaulted => cases simple
        | call | index | field => cases applied
        | float | cond => cases root
      · have inner := ih target (mem_parts_of_target applied)
          ((grouped_iff_of_target applied).mp root)
        rw [spell_of_target applied]
        refine inner.append ?_
        cases e <;> cases applied <;> simp [Word.Unsigned, fixed]

/-- A tree with the words that `spell` gives it. -/
def withWords (e : Expr) : Expr × List Word := (e, e.spell)

theorem spelledEach {items : List Expr} (each : ∀ e ∈ items, Spelled e e.spell) :
    ∀ item ∈ items.map withWords, Spelled item.1 item.2 :=
  List.forall_mem_map.mpr each

theorem map_withWords (items : List Expr) :
    (items.map withWords).map Prod.fst = items ∧
      (items.map withWords).map Prod.snd = spellEach items := by
  simp [withWords, spellEach_eq_map, Function.comp_def]

/-- The words of a literal or a name are a way to write it; those of a negative number have a sign. -/
theorem spelled_of_isLeaf {e : Expr} (leaf : e.isLeaf = true) (root : e.Grouped) :
    Spelled e e.spell := by
  cases e with
  | integer span n =>
      have digits : Spelled (.integer span n.natAbs) [.integer n.natAbs] :=
        .leaf fun span => ⟨_, leaf?_integer root span, by rw [erase, erase]⟩
      rw [spell]
      split
      next negative =>
        -- Reading folds the sign into the number.
        have folded : Reader.negated span (.integer span n.natAbs) = .integer span n := by
          rw [Reader.negated]
          congr 1
          omega
        exact folded ▸ .minus rfl digits
      next positive => rwa [Int.natAbs_of_nonneg (Int.not_lt.mp positive)] at digits
  | text _ s =>
      refine .leaf fun span => ⟨.text span s, ?_, by rw [erase, erase]⟩
      have read := Token.unescape_quoted s
      simp only [Reader.leaf?, Word.quoted] at read ⊢
      rw [read]
  | atom _ name =>
      exact .leaf fun span =>
        ⟨.atom span name, by simp [Reader.leaf?, Word.atom], by rw [erase, erase]⟩
  | bool _ b => cases b <;> exact .leaf fun span => ⟨_, rfl, rfl⟩
  | nil => exact .leaf fun span => ⟨.nil span, rfl, rfl⟩
  | ident _ name => exact .leaf fun span => ⟨.ident span name, rfl, by rw [erase, erase]⟩
  | _ => cases leaf

/-- The words of a tree that needs no further parentheses are a way to write it. -/
theorem OperatorCorrect.spelled {e : Expr} (correct : e.OperatorCorrect) : Spelled e e.spell := by
  induction correct with
  | @node e root parts ih =>
      rcases infixed : e.operands? with _ | ⟨kind, left, right⟩
      · cases e with
        | integer | text | atom | bool | nil | ident => exact spelled_of_isLeaf rfl root
        | unary span op e =>
            have inner := ih e (by simp [Expr.parts])
            rw [spell]
            cases op with
            | not => exact .negation root.1 inner
            | neg =>
                -- No number stands behind the sign, so it is not folded.
                have unfolded : Reader.negated span e = .unary span .neg e := by
                  have covered := parts e (by simp [Expr.parts])
                  cases e with
                  | integer => exact absurd ⟨rfl, rfl⟩ root.2
                  | float =>
                      cases covered with
                      | node float => cases float
                  | _ => rfl
                exact unfolded ▸ .minus root.1 inner
        | field span target name =>
            obtain ⟨inner⟩ := List.forall_mem_cons.mp ih
            rw [spell]
            exact .field (binding?_of_isSimple root)
              (OperatorCorrect.unsigned (parts target (by simp [Expr.parts])) root) inner
        | call span callee args =>
            obtain ⟨inner, each⟩ := List.forall_mem_cons.mp ih
            obtain ⟨trees, words⟩ := map_withWords args
            have unsigned := OperatorCorrect.unsigned (parts callee (by simp [Expr.parts])) root
            have spelled := @Spelled.call span _ _ _ (binding?_of_isSimple root) unsigned inner
              (spelledEach each)
            rwa [trees, words, ← spell] at spelled
        | index span target args =>
            obtain ⟨inner, each⟩ := List.forall_mem_cons.mp ih
            obtain ⟨trees, words⟩ := map_withWords args
            have unsigned := OperatorCorrect.unsigned (parts target (by simp [Expr.parts])) root
            have spelled := @Spelled.index span _ _ _ (binding?_of_isSimple root) unsigned inner
              (spelledEach each)
            rwa [trees, words, ← spell] at spelled
        | paren span items =>
            obtain ⟨trees, words⟩ := map_withWords items
            have spelled := @Spelled.paren span (items.map withWords) (spelledEach ih)
            rwa [trees, words, ← spell] at spelled
        | list span items =>
            obtain ⟨trees, words⟩ := map_withWords items
            have spelled := @Spelled.list span (items.map withWords) (spelledEach ih)
            rwa [trees, words, ← spell] at spelled
        | tuple span items =>
            obtain ⟨trees, words⟩ := map_withWords items
            have spelled := @Spelled.tuple span (items.map withWords) (spelledEach ih)
            rwa [trees, words, ← spell] at spelled
        | listTail span items tail =>
            obtain ⟨each, last⟩ := List.forall_mem_append.mp ih
            obtain ⟨trees, words⟩ := map_withWords items
            have nonempty : items.map withWords ≠ [] := by simpa [Grouped] using root
            have spelled := @Spelled.listTail span _ _ _ nonempty (spelledEach each)
              (last tail (by simp))
            rwa [trees, words, ← spell] at spelled
        | map span entries =>
            have each : ∀ entry ∈ entries.map fun entry =>
                WrittenEntry.keyed (withWords entry.1) (withWords entry.2),
                ∀ part ∈ entry.parts, Spelled part.1 part.2 := by
              refine List.forall_mem_map.mpr fun entry member => ?_
              have inside : ∀ part ∈ [entry.1, entry.2], Spelled part part.spell :=
                fun part here => ih part (List.mem_flatMap.mpr ⟨entry, member, here⟩)
              simpa [WrittenEntry.parts, withWords] using inside
            have loose : ∀ entry ∈ entries.map fun entry =>
                WrittenEntry.keyed (withWords entry.1) (withWords entry.2), entry.Loose :=
              List.forall_mem_map.mpr root
            have spelled := @Spelled.map span _ loose each
            have entryWords : spellEntry =
                fun entry => entry.1.spell ++ fixed .fatArrow :: entry.2.spell := rfl
            simpa [spell, spellEntries_eq_map, entryWords, withWords, WrittenEntry.tree,
              WrittenEntry.words, Function.comp_def] using spelled
        | binary | clause | guarded | defaulted => cases infixed
        | float | cond => cases root
      · rw [parts_of_operands infixed] at ih
        rw [spell_of_operands infixed]
        exact .infixed infixed ((grouped_iff_joined infixed).mp root) (ih left (by simp))
          (ih right (by simp))

end Expr

/-- A written tree that needs no further parentheses reads back. -/
theorem parseExpression_written {e : Expr} (correct : e.OperatorCorrect) (writable : e.Writable) :
    ∃ out, parseExpression e.written = .ok out ∧ out.erase = e.erase :=
  parseExpression_of_spelled (Expr.scan_written writable) correct.spelled

/-- Reading expressions implements the table of operators exactly.  Whatever is read is grouped
as the table says, and whatever is grouped so reads back from its words, up to its places. -/
theorem parseExpression_exact :
    (∀ (source : List Char) (e : Expr),
      parseExpression source = .ok e → e.InFragment → e.OperatorCorrect) ∧
    (∀ e : Expr, e.OperatorCorrect → e.Writable →
      (parseExpression e.written).map Expr.erase = .ok e.erase) := by
  constructor
  · intro source e read covered
    exact (sound_of_parseExpression read).operatorCorrect covered
  · intro e correct writable
    obtain ⟨out, read, same⟩ := parseExpression_written correct writable
    rw [read]
    exact congrArg Except.ok same

/-- `a - b - -7`, with the places that the tree has in this text. -/
def difference : Expr :=
  .binary ⟨0, 10, 1, 1⟩ (.strict .sub)
    (.binary ⟨0, 5, 1, 1⟩ (.strict .sub) (.ident ⟨0, 1, 1, 1⟩ "a") (.ident ⟨4, 5, 1, 5⟩ "b"))
    (.integer ⟨8, 10, 1, 9⟩ (-7))

theorem parseExpression_exact_difference :
    (parseExpression "a - b - -7".toList = .ok difference ∧ difference.InFragment ∧
      difference.OperatorCorrect) ∧ difference.Writable ∧
    (parseExpression difference.written).map Expr.erase = .ok difference.erase := by
  have leaf : ∀ {P : Expr → Prop} {e : Expr}, e.parts = [] → P e → e.Throughout P := by
    intro P e none holds
    refine .node holds ?_
    rw [none]
    exact List.forall_mem_nil _
  have nodes : ∀ {P : Expr → Prop} {span : Span} {op : BinaryOp} {left right : Expr},
      P (.binary span op left right) → left.Throughout P → right.Throughout P →
      (Expr.binary span op left right).Throughout P := by
    intro P span op left right root inLeft inRight
    exact .node root (by simpa [Expr.parts] using And.intro inLeft inRight)
  have letter : ∀ {c : Char}, Token.isNameStart c = true → Token.IsName [c] :=
    fun start => ⟨_, [], [], rfl, start, List.forall_mem_nil _, by simp, List.forall_mem_nil _⟩
  have read : parseExpression "a - b - -7".toList = .ok difference := by
    with_unfolding_all rfl
  have covered : difference.InFragment :=
    nodes rfl (nodes rfl (leaf rfl rfl) (leaf rfl rfl)) (leaf rfl rfl)
  have writable : difference.Writable :=
    nodes trivial (nodes trivial (leaf rfl ⟨letter rfl, by decide⟩)
      (leaf rfl ⟨letter rfl, by decide⟩)) (leaf rfl trivial)
  have correct := parseExpression_exact.1 _ _ read covered
  exact ⟨⟨read, covered, correct⟩, writable, parseExpression_exact.2 _ correct writable⟩

end Surface
end Clausal
