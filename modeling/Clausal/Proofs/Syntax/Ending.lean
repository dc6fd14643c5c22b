import Clausal.Surface.Definition
import Clausal.Proofs.Syntax.Progress

/-!
# Reading ends on every text

Functions, structs and modules take their tokens as expressions do, and the loop over the items of a
file takes a token in every round: a sound item has one, and after a fault reading goes on at least one
token further.  So the step limits that a text is read with are never felt.

Main statement: `reading_ends`.
-/

namespace Clausal
namespace Surface

open Token (Kind)

namespace Reader

variable {ι α : Type} {c : Cursor} {layout : Layout} {bound : Nat} {limit : ι → Nat}

theorem expression_ends (enough : ∀ i, bound < limit i) (least : Precedence)
    (le : c.remaining ≤ bound) : Ends 1 c (fun i => expression layout (limit i) least) :=
  expressionAt_ends layout least fun i => Nat.lt_of_le_of_lt le (enough i)

theorem expressionAt_nested (layout : Layout) (enough : ∀ i, bound ≤ limit i) :
    Nested bound (fun i => expressionAt layout (limit i)) :=
  fun least _ below => expressionAt_ends layout least fun i => Nat.lt_of_lt_of_le below (enough i)

/-! ## Functions -/

theorem parameter_ends (enough : ∀ i, bound < limit i) (le : c.remaining ≤ bound) :
    Ends 1 c (fun i => parameter layout (limit i)) := by
  refine Ends.bind (name_ends layout _) fun target c₁ _ => ?_
  refine Leads.sees (Leads.ite (fun colon => ?_) fun _ => Ends.fail _)
  refine Ends.bind (.advance (Cursor.isSome_of_sees colon)) fun _ c₂ _ => ?_
  refine Ends.bind (expression_ends enough .default (by omega)) fun type _ _ => ?_
  exact Leads.spanFrom (Ends.pure _)

/-- A round of a parameter list reads a parameter and a comma, or ends the list. -/
theorem parameters_rounds (enough : ∀ i, bound < limit i) (rounds : ι → Nat) (params : List Param)
    (below : c.remaining < bound) :
    Rounds 1 (fun i => parameters layout (limit i) (rounds i)) c
      (fun i => parameters layout (limit i) (rounds i + 1) params) := by
  refine Rounds.bind .skipNewlines fun _ c₁ _ => Leads.sees (Leads.ite ?_ ?_)
  · exact fun _ => Rounds.leave (.pure params)
  · intro _
    refine Rounds.bind (parameter_ends enough (by omega)) fun param c₂ _ => ?_
    refine Rounds.bind .skipNewlines fun _ c₃ _ => Leads.sees (Leads.ite ?_ ?_)
    · intro comma
      refine Rounds.bind (.advance (Cursor.isSome_of_sees comma)) fun _ _ _ => ?_
      exact Rounds.goOn (params ++ [param])
    · exact fun _ => Rounds.leave (.pure (params ++ [param]))

/-- A round of a constraint list reads a constraint and a comma, or ends the list. -/
theorem constraints_rounds (enough : ∀ i, bound < limit i) (rounds : ι → Nat)
    (found : List Constraint) (below : c.remaining < bound) :
    Rounds 1 (fun i => constraints layout (limit i) (rounds i)) c
      (fun i => constraints layout (limit i) (rounds i + 1) found) := by
  refine Rounds.bind .skipNewlines fun _ c₁ _ => ?_
  refine Rounds.bind (name_ends layout _) fun target c₂ _ => ?_
  refine Rounds.bind (expect_ends layout .colon) fun _ c₃ _ => ?_
  refine Rounds.bind (expression_ends enough .or (by omega)) fun type c₄ _ => ?_
  refine Leads.spanFrom (Leads.sees (Leads.ite ?_ ?_))
  · intro comma
    refine Rounds.bind (.advance (Cursor.isSome_of_sees comma)) fun _ _ _ => ?_
    exact Rounds.goOn _
  · exact fun _ => Rounds.leave (.pure _)

theorem functionDef_ends (enough : ∀ i, bound < limit i) (le : c.remaining ≤ bound) :
    Ends 1 c (fun i => functionDef layout (limit i)) := by
  refine Ends.bind (expect_ends layout .kwDef) fun opening c₁ _ => ?_
  refine Ends.bind (name_ends layout _) fun target c₂ _ => ?_
  refine Ends.bind (expect_ends layout .leftParen) fun _ c₃ _ => ?_
  have list : Ends 0 c₃ (fun i => parameters layout (limit i) (limit i) []) :=
    Ends.of_rounds (fun i => parameters layout (limit i))
      (fun rounds s _ => parameters_rounds enough rounds s) (by omega) enough
  refine Ends.bind list fun params c₄ _ => ?_
  refine Ends.bind (expect_ends layout .rightParen) fun _ c₅ _ => ?_
  -- Each of the two clauses before the body may be left out.
  have bodies : ∀ (c : Cursor) (returnType : Option Expr) (found : List Constraint),
      c.remaining ≤ bound → Ends 0 c (fun i => do
        let body ← block layout (limit i) (expressionAt layout (limit i))
        return ({ name := target.text, params, returnType, constraints := found, body
                  span := ← Reader.spanFrom layout opening.span.start } : FunctionDef)) := by
    intro c returnType found le
    have nested := expressionAt_nested layout fun i => Nat.le_of_lt (enough i)
    refine Ends.bind (block_ends nested enough le) fun body _ _ => ?_
    exact Leads.spanFrom (Ends.pure _)
  have clauses : ∀ (c : Cursor) (returnType : Option Expr), c.remaining ≤ bound →
      Ends 0 c (fun i => do
        let found ← if ← sees .kwWhere then do
            advance
            constraints layout (limit i) (limit i) []
          else
            Pure.pure []
        let body ← block layout (limit i) (expressionAt layout (limit i))
        return ({ name := target.text, params, returnType, constraints := found, body
                  span := ← Reader.spanFrom layout opening.span.start } : FunctionDef)) := by
    intro c returnType le
    refine Leads.sees (Leads.ite (fun conditions => ?_) fun _ => bodies c returnType [] le)
    refine Ends.bind (.advance (Cursor.isSome_of_sees conditions)) fun _ c₁ _ => ?_
    have list : Ends 0 c₁ (fun i => constraints layout (limit i) (limit i) []) :=
      Ends.of_rounds (fun i => constraints layout (limit i))
        (fun rounds s _ => constraints_rounds enough rounds s) (by omega) enough
    exact Ends.bind list fun found c₂ _ => bodies c₂ returnType found (by omega)
  refine Leads.sees (Leads.ite (fun arrow => ?_) fun _ => clauses c₅ none (by omega))
  refine Ends.bind (.advance (Cursor.isSome_of_sees arrow)) fun _ c₆ _ => ?_
  refine Ends.bind (expression_ends enough .or (by omega)) fun type c₇ _ => ?_
  exact clauses c₇ (some type) (by omega)

/-! ## Structs -/

/-- A round of the fields of a struct reads a field that is properly ended, or ends them. -/
theorem fields_rounds (enough : ∀ i, bound < limit i) (rounds : ι → Nat) (found : List FieldDef)
    (below : c.remaining < bound) :
    Rounds 1 (fun i => fields layout (limit i) (rounds i)) c
      (fun i => fields layout (limit i) (rounds i + 1) found) := by
  refine Rounds.bind .skipSeparators fun _ c₁ _ => Leads.sees (Leads.ite ?_ ?_)
  · exact fun _ => Rounds.leave (.pure found)
  · intro _
    refine Rounds.bind (name_ends layout _) fun target c₂ _ => ?_
    refine Rounds.bind (expect_ends layout .colon) fun _ c₃ _ => ?_
    refine Rounds.bind (expression_ends enough .or (by omega)) fun type c₄ _ => ?_
    refine Leads.spanFrom (Leads.get ?_)
    refine Rounds.bind .skipSeparators fun _ c₆ _ => Leads.sees (Leads.ite ?_ ?_)
    · intro comma
      refine Rounds.bind (.advance (Cursor.isSome_of_sees comma)) fun _ _ _ => ?_
      exact Rounds.goOn _
    · refine fun _ => Leads.sees (Leads.ite (fun _ => ?_) fun _ => ?_)
      · exact Rounds.goOn _
      · exact Rounds.leave (unexpected_ends layout _)

theorem structDef_ends (enough : ∀ i, bound < limit i) (le : c.remaining ≤ bound) :
    Ends 1 c (fun i => structDef layout (limit i)) := by
  refine Ends.bind (expect_ends layout .kwStruct) fun opening c₁ _ => ?_
  refine Ends.bind (expect_ends layout .leftBrace) fun _ c₂ _ => ?_
  have list : Ends 0 c₂ (fun i => fields layout (limit i) (limit i) []) :=
    Ends.of_rounds (fun i => fields layout (limit i))
      (fun rounds s _ => fields_rounds enough rounds s) (by omega) enough
  refine Ends.bind list fun found _ _ => ?_
  refine Ends.bind (expect_ends layout .rightBrace) fun _ _ _ => ?_
  exact Leads.spanFrom (Ends.pure _)

/-! ## Modules -/

theorem member_ends (enough : ∀ i, bound < limit i) (le : c.remaining ≤ bound) :
    Ends 1 c (fun i => member layout (limit i)) := by
  refine Leads.sees (Leads.ite (fun _ => ?_) fun _ => Leads.sees (Leads.ite (fun _ => ?_) fun _ => ?_))
  · exact Ends.bind (functionDef_ends enough le) fun _ _ _ => .pure _
  · exact Ends.bind (structDef_ends enough le) fun _ _ _ => .pure _
  · exact unexpected_ends layout _

/-- A round of a dotted name reads a dot and a part, or ends the name. -/
theorem dottedName_rounds (layout : Layout) (rounds : ι → Nat) (path : String) :
    Rounds 1 (fun i => dottedName layout (rounds i)) c
      (fun i => dottedName layout (rounds i + 1) path) := by
  refine Leads.sees (Leads.ite (fun dot => ?_) fun _ => Rounds.leave (.pure path))
  refine Rounds.bind (.advance (Cursor.isSome_of_sees dot)) fun _ _ _ => ?_
  exact Rounds.bind (name_ends layout _) fun part _ _ => Rounds.goOn _

/-- A round of the members of a module reads a member, or ends them. -/
theorem members_rounds (enough : ∀ i, bound < limit i) (rounds : ι → Nat) (found : List Member)
    (below : c.remaining < bound) :
    Rounds 1 (fun i => members layout (limit i) (rounds i)) c
      (fun i => members layout (limit i) (rounds i + 1) found) := by
  refine Rounds.bind .skipSeparators fun _ c₁ _ => Leads.sees (Leads.get (Leads.ite ?_ ?_))
  · exact fun _ => Rounds.leave (.pure found)
  · refine fun _ => Leads.sees (Leads.ite (fun _ => ?_) fun _ => ?_)
    · refine Rounds.leave (Leads.currentSpan ?_)
      -- A fault passes for a reader of any number of tokens, so nothing has to be shown of what follows it.
      exact Ends.bind (k := c₁.remaining + 1) (.fail _) fun _ _ behind => by omega
    · exact Rounds.bind (member_ends enough (by omega)) fun next _ _ => Rounds.goOn (found ++ [next])

theorem moduleDef_ends (enough : ∀ i, bound < limit i) (le : c.remaining ≤ bound) :
    Ends 1 c (fun i => moduleDef layout (limit i)) := by
  refine Ends.bind (expect_ends layout .kwModule) fun opening c₁ _ => ?_
  refine Ends.bind (name_ends layout _) fun first c₂ _ => ?_
  have parts : Ends 0 c₂ (fun i => dottedName layout (limit i) first.text) :=
    Ends.of_rounds (fun _ => dottedName layout)
      (fun rounds s _ _ => dottedName_rounds layout rounds s) (show c₂.remaining < bound by omega) enough
  refine Ends.bind parts fun path c₃ _ => ?_
  refine Ends.bind (expect_ends layout .leftBrace) fun _ c₄ _ => ?_
  have list : Ends 0 c₄ (fun i => members layout (limit i) (limit i) []) :=
    Ends.of_rounds (fun i => members layout (limit i))
      (fun rounds s _ => members_rounds enough rounds s) (by omega) enough
  refine Ends.bind list fun found _ _ => ?_
  refine Ends.bind (expect_ends layout .rightBrace) fun _ _ _ => ?_
  exact Leads.spanFrom (Ends.pure _)

theorem item_ends (enough : ∀ i, bound < limit i) (le : c.remaining ≤ bound) :
    Ends 1 c (fun i => item layout (limit i)) := by
  refine Leads.sees (Leads.ite (fun _ => ?_) fun _ => ?_)
  · exact Ends.bind (moduleDef_ends enough le) fun _ _ _ => .pure _
  · exact Ends.bind (member_ends enough le) fun _ _ _ => .pure _

end Reader

/-! ## Files -/

section Files

variable {ι : Type} {c d e : Cursor}

theorem passes_recover (token : c.current.isSome = true) : c.Passes 1 c.recover :=
  .on token (Cursor.passes_skip _ _)

/-- Reading goes on at a token that begins an item, or at the end. -/
theorem beginsItem_of_recover {kind : Kind} (found : kind ∈ c.recover.kind?) :
    beginsItem kind = true := by
  have stopped := Cursor.seesAny_skip (fun kind => !beginsItem kind) c.advance
  have here : c.recover.kind? = some kind := found
  unfold Cursor.recover at here
  simpa [Cursor.seesAny, here] using stopped

/-- After a fault fewer tokens are ahead than where the faulty item began: the item took a token, or
recovery does. -/
theorem remaining_recover_lt (token : c.current.isSome = true) (passes : c.Passes 0 d)
    (current : e.current = d.current) (rest : e.rest = d.rest) :
    e.recover.remaining < c.remaining := by
  have le := passes.remaining_le
  have same : e.remaining = d.remaining := by simp only [Cursor.remaining, current, rest]
  cases found : d.current with
  | some next =>
      -- The fault is in front of a token, which recovery takes.
      have taken := (passes_recover (c := e) (by rw [current, found]; rfl)).remaining_le
      omega
  | none =>
      -- The fault is at the end of the text, so the item took all that was ahead.
      rcases passes.eq_or_advance with rfl | ⟨before, rfl⟩
      · rw [found] at token
        cases token
      · have begins : 0 < c.remaining := by
          obtain ⟨next, here⟩ := Option.isSome_iff_exists.mp token
          simp [Cursor.remaining, here]
        have nothing : e.rest = [] := rest.trans (Cursor.rest_advance found)
        have ended : e.advance.remaining = 0 := by
          simp [Cursor.advance, Cursor.remaining, nothing, Cursor.nextToken]
        have skipped := (Cursor.passes_skip (fun kind => !beginsItem kind) e.advance).remaining_le
        unfold Cursor.recover
        omega

/-- A round of the loop over the items of a file takes a token, or ends the loop. -/
theorem readItems_rounds (layout : Layout) {limit : ι → Nat} (rounds : ι → Nat)
    (items : List Item) (enough : ∀ i, c.remaining < limit i) :
    (∃ out, ∀ i, readItems layout (limit i) (rounds i + 1) items c = some out) ∨
      ∃ items' c', c'.remaining < c.remaining ∧ ∀ i,
        readItems layout (limit i) (rounds i + 1) items c =
          readItems layout (limit i) (rounds i) items' c' := by
  have skipped := (Cursor.passes_skip Kind.isSeparator c).remaining_le
  cases found : (c.skip Kind.isSeparator).current with
  | none =>
      refine .inl ⟨(items, (c.skip Kind.isSeparator).errors), fun i => ?_⟩
      simp [readItems, found]
  | some token =>
      have reads : Reader.Ends 1 (c.skip Kind.isSeparator) (fun i => Reader.item layout (limit i)) :=
        Reader.item_ends enough skipped
      obtain ⟨outcome, ended, same⟩ := reads
      have run : ∀ i, (Reader.item layout (limit i)).run (c.skip Kind.isSeparator) = outcome := same
      cases outcome with
      | ok item c' =>
          have taken := Cursor.Passes.remaining_le ended
          refine .inr ⟨items ++ [item], c', by omega, fun i => ?_⟩
          simp [readItems, found, run]
      | error halt c' =>
          cases halt with
          | exhausted => exact ended.elim
          | fault e =>
              -- After an item that was refused, recovery has fewer tokens ahead than there were in
              -- front of the item.
              have fewer := remaining_recover_lt (e := { c' with errors := c'.errors ++ [e] })
                (found ▸ rfl) ended rfl rfl
              refine .inr ⟨items, _, Nat.lt_of_lt_of_le fewer skipped, fun i => ?_⟩
              simp [readItems, found, run]

/-- Every pair of step limits above the number of tokens ahead reads the same items and faults. -/
theorem readItems_ends (layout : Layout) {limit rounds : ι → Nat} (items : List Item)
    (enough : ∀ i, c.remaining < limit i) (more : ∀ i, c.remaining < rounds i) :
    ∃ out, ∀ i, readItems layout (limit i) (rounds i) items c = some out := by
  induction ahead : c.remaining using Nat.strongRecOn generalizing c rounds items with
  | ind ahead ih =>
      subst ahead
      obtain ⟨fewer, rfl⟩ := Reader.exists_succ more
      rcases readItems_rounds layout fewer items enough with ends | ⟨items', c', less, same⟩
      · exact ends
      · obtain ⟨out, found⟩ := ih c'.remaining less items' (fun i => Nat.lt_trans less (enough i))
          (fun i => Nat.lt_of_lt_of_le less (Nat.le_of_lt_succ (more i))) rfl
        exact ⟨out, fun i => (same i).trans (found i)⟩

/-- A text has no more tokens than lexemes. -/
theorem remaining_ofLexemes (lexemes : List Token.Lexeme) :
    (Cursor.ofLexemes lexemes).remaining ≤ lexemes.length := by
  have filtered := List.length_filter_le (fun l => !Cursor.isComment l) lexemes
  have behind := Cursor.length_nextToken (lexemes.filter fun l => !Cursor.isComment l)
  unfold Cursor.ofLexemes Cursor.remaining
  cases found : (Cursor.nextToken (lexemes.filter fun l => !Cursor.isComment l)).2.1 with
  | none => simp [found]
  | some token =>
      cases kept : lexemes.filter fun l => !Cursor.isComment l with
      | nil =>
          rw [kept] at found
          cases found
      | cons first others =>
          rw [kept] at behind found filtered
          simp only [found]
          exact Nat.le_trans (Nat.succ_le_succ behind) filtered

end Files

/-! ## Texts -/

namespace Reader

/-- Every round of a loop, begun with fewer than `bound` tokens ahead, ends the loop or goes on behind
at least one token; the number of rounds that are left does not matter. -/
def Advances {σ α : Type} (bound : Nat) (loop : Nat → σ → Reader α) : Prop :=
  ∀ s c, c.remaining < bound → Rounds 1 loop c (fun rounds => loop (rounds + 1) s)

end Reader

/-- What reading a text in the given layout does in every round of every loop, and whenever one
expression is read inside another. -/
structure Advancing (layout : Layout) : Prop where
  commaList (limit : Nat) (close : Kind) :
    Reader.Advances limit (Reader.commaList (Reader.expressionAt layout limit) close)
  listItems (limit : Nat) : Reader.Advances limit (Reader.listItems (Reader.expressionAt layout limit))
  mapEntries (limit : Nat) :
    Reader.Advances limit (Reader.mapEntries layout (Reader.expressionAt layout limit))
  statements (limit : Nat) :
    Reader.Advances limit (Reader.statements layout (Reader.expressionAt layout limit))
  continuation (limit : Nat) (least : Precedence) : Reader.Advances limit
    (Reader.continuation layout (limit + 1) (Reader.expressionAt layout limit) least)
  parameters (limit : Nat) : Reader.Advances limit (Reader.parameters layout (limit + 1))
  constraints (limit : Nat) : Reader.Advances limit (Reader.constraints layout (limit + 1))
  fields (limit : Nat) : Reader.Advances limit (Reader.fields layout (limit + 1))
  dottedName (limit : Nat) : Reader.Advances limit (Reader.dottedName layout)
  members (limit : Nat) : Reader.Advances limit (Reader.members layout (limit + 1))
  /-- The loop over the items of a file, which recovers after a faulty one. -/
  items (limit : Nat) (items : List Item) (c : Cursor) : c.remaining < limit →
    (∃ out, ∀ rounds, readItems layout limit (rounds + 1) items c = some out) ∨
      ∃ items' c', c'.remaining < c.remaining ∧ ∀ rounds,
        readItems layout limit (rounds + 1) items c = readItems layout limit rounds items' c'
  /-- Recovery takes a token and stops before one that begins an item. -/
  recovery (c : Cursor) : c.current.isSome = true →
    c.Passes 1 c.recover ∧ ∀ kind ∈ c.recover.kind?, beginsItem kind = true
  /-- Skipping stops of itself. -/
  skipping (p : Kind → Bool) (c : Cursor) : c.Passes 0 (c.skip p) ∧ (c.skip p).seesAny p = false
  /-- An expression is read inside another only where fewer tokens are ahead: readers that end alike
  there are enough to read the outer one, which takes a token. -/
  nesting {ι : Type} (limit : ι → Nat) (sub : ι → Precedence → Reader Expr) (least : Precedence)
    (c : Cursor) : Reader.Nested c.remaining sub → (∀ i, c.remaining < limit i) →
      Reader.Ends 1 c (fun i => Reader.expressionWith layout (limit i) (sub i) least)
  /-- In a chain of `else if` every further conditional comes behind a token. -/
  chain (limit : Nat) (c : Cursor) : c.remaining ≤ limit →
    ∃ outcome, Reader.Ended 1 c outcome ∧ ∀ rounds, c.remaining < rounds →
      Reader.cond layout (limit + 1) (Reader.expressionAt layout limit) rounds c = outcome
  /-- Every step limit above the number of tokens ahead reads the same expression. -/
  expression (least : Precedence) (c : Cursor) :
    ∃ outcome, Reader.Ended 1 c outcome ∧ ∀ limit, c.remaining < limit →
      Reader.expressionAt layout limit least c = outcome
  /-- Step limits above the number of tokens ahead read the same items and faults. -/
  file (items : List Item) (c : Cursor) :
    ∃ out, ∀ limit rounds, c.remaining < limit → c.remaining < rounds →
      readItems layout limit rounds items c = some out

open Reader in
theorem advancing (layout : Layout) : Advancing layout where
  commaList limit close items _ below :=
    commaList_rounds (expressionAt_nested layout fun _ => Nat.le_refl limit) close id items below
  listItems limit items _ below :=
    listItems_rounds (expressionAt_nested layout fun _ => Nat.le_refl limit) id items below
  mapEntries limit entries _ below :=
    mapEntries_rounds (expressionAt_nested layout fun _ => Nat.le_refl limit) id entries below
  statements limit stmts _ below :=
    statements_rounds (expressionAt_nested layout fun _ => Nat.le_refl limit) id stmts below
  continuation limit least left _ below :=
    continuation_rounds (expressionAt_nested layout fun _ => Nat.le_refl limit)
      (fun _ => Nat.lt_succ_self limit) least id left below
  parameters limit params _ below :=
    parameters_rounds (fun _ => Nat.lt_succ_self limit) id params below
  constraints limit found _ below :=
    constraints_rounds (fun _ => Nat.lt_succ_self limit) id found below
  fields limit found _ below := fields_rounds (fun _ => Nat.lt_succ_self limit) id found below
  dottedName _ path _ _ := dottedName_rounds layout id path
  members limit found _ below := members_rounds (fun _ => Nat.lt_succ_self limit) id found below
  items _ items _ below := readItems_rounds layout id items fun _ => below
  recovery _ token := ⟨passes_recover token, fun _ => beginsItem_of_recover⟩
  skipping p c := ⟨Cursor.passes_skip p c, Cursor.seesAny_skip p c⟩
  nesting _ _ least _ nested enough := expressionWith_ends nested enough least (Nat.le_refl _)
  -- From here on, the family of limits is that of all limits that are large enough.
  chain limit c le := by
    have ends : Ends 1 c (fun rounds : { rounds : Nat // c.remaining < rounds } =>
        cond layout (limit + 1) (expressionAt layout limit) rounds) :=
      cond_ends (expressionAt_nested layout fun _ => Nat.le_refl limit)
        (fun _ => Nat.lt_succ_self limit) le Subtype.property
    obtain ⟨outcome, ended, same⟩ := ends
    exact ⟨outcome, ended, fun rounds more => same ⟨rounds, more⟩⟩
  expression least c := by
    have ends : Ends 1 c (fun limit : { limit : Nat // c.remaining < limit } =>
        expressionAt layout limit least) :=
      expressionAt_ends layout least Subtype.property
    obtain ⟨outcome, ended, same⟩ := ends
    exact ⟨outcome, ended, fun limit enough => same ⟨limit, enough⟩⟩
  file items c := by
    have ends : ∃ out, ∀ i : { n // c.remaining < n } × { n // c.remaining < n },
        readItems layout i.1 i.2 items c = some out :=
      readItems_ends layout items (fun i => i.1.property) fun i => i.2.property
    obtain ⟨out, same⟩ := ends
    exact ⟨out, fun limit rounds enough more => same (⟨limit, enough⟩, ⟨rounds, more⟩)⟩

/-- A step limit above the number of tokens is not felt between the start and the end of a text that
is read as an expression. -/
theorem wholeExpression_ends {ι : Type} (layout : Layout) {limit : ι → Nat} {c : Cursor}
    (enough : ∀ i, c.remaining < limit i) : Reader.Ends 0 c (fun i => do
      Reader.skipNewlines
      let e ← Reader.expressionAt layout (limit i) .lowest
      Reader.skipSeparators
      match (← get).current with
      | some token => Reader.fail (.unexpectedToken token.text "end of input" token.span)
      | none =>
          match (← get).errors with
          | first :: _ => Reader.fail first
          | [] => return e) := by
  refine Reader.Ends.bind .skipNewlines fun _ c₁ le => ?_
  have fewer : ∀ i, c₁.remaining < limit i := fun i => Nat.lt_of_le_of_lt le (enough i)
  refine Reader.Ends.bind (Reader.expressionAt_ends layout .lowest fewer) fun e _ _ => ?_
  refine Reader.Ends.bind .skipSeparators fun _ c₃ _ => Reader.Leads.get ?_
  cases c₃.current with
  | some token => exact Reader.Ends.fail _
  | none =>
      refine Reader.Leads.get ?_
      cases c₃.errors with
      | nil => exact Reader.Ends.pure e
      | cons first rest => exact Reader.Ends.fail first

/-- An outcome that has ended is a result or a fault. -/
theorem isSome_of_ended {c : Cursor} (outcome : EStateM.Result Halt Cursor Expr) :
    Reader.Ended 0 c outcome → (match outcome with
      | .ok e _ => some (.ok e)
      | .error (.fault e) _ => some (.error e)
      | .error .exhausted _ => none : Option (Except ParseError Expr)).isSome = true := by
  intro ended
  cases outcome with
  | ok e c' => rfl
  | error halt c' =>
      cases halt with
      | fault e => rfl
      | exhausted => exact ended.elim

/-- The step limit of a text is not felt when it is read as an expression. -/
theorem readExpression_eq_some (source : List Char) :
    readExpression source = some (parseExpression source) := by
  have enough := Nat.lt_succ_of_le (remaining_ofLexemes (Token.scan source))
  obtain ⟨outcome, ended, same⟩ := wholeExpression_ends (Layout.ofText source) fun _ : Unit => enough
  obtain rfl := same ()
  have isSome : (readExpression source).isSome = true := isSome_of_ended _ ended
  obtain ⟨out, found⟩ := Option.isSome_iff_exists.mp isSome
  rw [parseExpression, found]
  rfl

/-- The step limit of a text is not felt when it is read as a source file. -/
theorem readFile_eq_some (source : List Char) : readFile source = some (parseFile source) := by
  have enough := Nat.lt_succ_of_le (remaining_ofLexemes (Token.scan source))
  have ends : ∃ out, ∀ _ : Unit, readItems (Layout.ofText source) ((Token.scan source).length + 1)
      ((Token.scan source).length + 1) [] (Cursor.ofLexemes (Token.scan source)) = some out :=
    readItems_ends _ [] (fun _ => enough) fun _ => enough
  obtain ⟨out, found⟩ := ends
  have read : readFile source = some _ := congrArg (Option.map _) (found ())
  rw [parseFile, read]
  rfl

/-- Reading ends on every text, as an expression and as a source file: no step limit is met, since every
round of every loop and every nested expression takes a token or is the last. -/
theorem reading_ends (source : List Char) :
    readExpression source = some (parseExpression source) ∧
      readFile source = some (parseFile source) ∧ Advancing (Layout.ofText source) :=
  ⟨readExpression_eq_some source, readFile_eq_some source, advancing _⟩

end Surface
end Clausal
