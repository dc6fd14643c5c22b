import Clausal.Proofs.Syntax.Grammar
import Clausal.Proofs.Syntax.Outcomes

/-!
# Operators group as their levels say

Whatever an expression reader accepts, the tree it gives is `Grouped` at every covered node.  The
argument follows the reader's loop.  A tree that was read so far is judged together with the token
after it: `Expr.Follows e next` says that `next` may stand behind `e` without taking an operand
away from it, and `Stops least next` that a reader at level `least` ends before `next`.  The loop
keeps the first and ends in the second.

The conditions on the operands of an operator are two sides of the same thing: a left operand fits
exactly when the operator may follow it, and a right operand fits exactly when it can be read at
the level that the operator asks for.
-/

namespace Clausal

open Token (Kind)

/-! ## The table of operators -/

namespace Token.Kind

/-- The tokens that begin a postfix form behind a tree. -/
def opensPostfix : Kind → Bool
  | leftParen | leftBracket | dot => true
  | _ => false

/-- Every infix operator binds looser than a sign. -/
theorem level_lt_unary {kind : Kind} {binding : Precedence × Associativity}
    (h : binding ∈ kind.operator?) : binding.1.level < Precedence.unary.level := by
  cases kind <;> cases h <;> decide

/-- The levels that group to the right. -/
theorem assoc_eq_right_iff {kind : Kind} {binding : Precedence × Associativity}
    (h : binding ∈ kind.operator?) :
    binding.2 = .right ↔ binding.1 = .clause ∨ binding.1 = .default ∨ binding.1 = .concat := by
  cases kind <;> cases h <;> decide

/-- Operators of one level group to the same side. -/
theorem assoc_eq_of_level_eq {kind other : Kind} {a b : Precedence × Associativity}
    (ha : a ∈ kind.operator?) (hb : b ∈ other.operator?) (h : a.1.level = b.1.level) :
    a.2 = b.2 := by
  have same : a.1 = b.1 := Precedence.level_injective h
  have right : a.2 = .right ↔ b.2 = .right := by
    rw [assoc_eq_right_iff ha, assoc_eq_right_iff hb, same]
  cases hx : a.2 <;> cases hy : b.2 <;> simp_all

/-- An infix operator begins no postfix form. -/
theorem opensPostfix_of_operator {kind : Kind} {binding : Precedence × Associativity}
    (h : binding ∈ kind.operator?) : kind.opensPostfix = false := by
  cases kind <;> first | rfl | cases h

/-- The right operand of an operator that groups to the left binds tighter than the operator. -/
theorem level_rightOperand {kind : Kind} {binding : Precedence × Associativity}
    (h : binding ∈ kind.operator?) :
    (binding.2.rightOperand binding.1).level =
      if binding.2 = .left then binding.1.level + 1 else binding.1.level := by
  cases kind <;> cases h <;> rfl

end Token.Kind

namespace Surface

/-! ## What may come after a tree -/

/-- A reader at level `least` ends before the token `next`. -/
def Stops (least : Precedence) (next : Option Kind) : Prop :=
  ∀ kind ∈ next, kind.opensPostfix = false ∧
    ∀ binding ∈ kind.operator?, binding.1.level < least.level

namespace Expr

variable {e left right : Expr} {kind : Kind} {next : Option Kind} {least : Precedence}
  {binding : Precedence × Associativity}

/-- The token `next` may stand behind `e`: it neither applies nor regroups a part of `e`. -/
def Follows (e : Expr) (next : Option Kind) : Prop :=
  ∀ kind ∈ next, (e.isSimple = false → kind.opensPostfix = false) ∧
    ∀ inner ∈ e.binding?, ∀ outer ∈ kind.operator?,
      outer.1.level < (inner.2.rightOperand inner.1).level

/-- The binding of a tree is that of some operator. -/
theorem exists_operator (h : binding ∈ e.binding?) : ∃ kind : Kind, binding ∈ kind.operator? := by
  obtain ⟨form, -, found⟩ := Option.bind_eq_some_iff.mp h
  exact ⟨form.1, found⟩

theorem binding?_of_isSimple (h : e.isSimple = true) : e.binding? = none := by
  cases e <;> first | rfl | cases h

theorem isSimple_of_binding (h : binding ∈ e.binding?) : e.isSimple = false := by
  cases simple : e.isSimple with
  | false => rfl
  | true =>
      rw [binding?_of_isSimple simple] at h
      cases h

/-- Anything may follow a primary or postfix form. -/
theorem follows_of_isSimple (h : e.isSimple = true) : e.Follows next := by
  intro kind _
  refine ⟨fun simple => absurd h (by simp [simple]), ?_⟩
  rw [binding?_of_isSimple h]
  nofun

/-- What may follow an infix form ends the reading of its right operand. -/
theorem follows_iff_of_binding (h : binding ∈ e.binding?) :
    e.Follows next ↔ Stops (binding.2.rightOperand binding.1) next := by
  have simple := isSimple_of_binding h
  have only : e.binding? = some binding := h
  simp [Follows, Stops, simple, only]

/-- Where the reading of a tree ends, the next token may follow it. -/
theorem follows_of_stops (binds : e.Binds least) (stops : Stops least next) :
    e.Follows next := by
  intro kind member
  refine ⟨fun _ => (stops kind member).1, ?_⟩
  intro inner found outer operator
  obtain ⟨_, known⟩ := exists_operator found
  have below := (stops kind member).2 outer operator
  have above := binds inner found
  rw [Kind.level_rightOperand known]
  split <;> omega

/-! ## Operands that fit -/

/-- A left operand fits exactly when its operator may follow it. -/
theorem fits_left_iff (h : binding ∈ kind.operator?) :
    left.Fits .left binding.1 binding.2 ↔ left.Follows (some kind) := by
  constructor
  · rintro fits _ ⟨⟩
    refine ⟨fun _ => Kind.opensPostfix_of_operator h, ?_⟩
    intro inner found outer operator
    obtain rfl : binding = outer := Option.mem_unique h operator
    obtain ⟨_, known⟩ := exists_operator found
    rw [Kind.level_rightOperand known]
    rcases fits inner found with tighter | ⟨equal, side⟩
    · split <;> omega
    · -- The inner operator is of the same level, so it groups to the left as well.
      have same := Kind.assoc_eq_of_level_eq known h equal
      rw [if_pos (same.trans side)]
      omega
  · intro follows inner found
    have below := (follows kind rfl).2 inner found binding h
    obtain ⟨_, known⟩ := exists_operator found
    rw [Kind.level_rightOperand known] at below
    -- An operator of the same level has to group to the left.
    by_cases tighter : binding.1.level < inner.1.level
    · exact .inl tighter
    · by_cases leftward : inner.2 = .left
      · rw [if_pos leftward] at below
        have equal : inner.1.level = binding.1.level := by omega
        exact .inr ⟨equal, (Kind.assoc_eq_of_level_eq known h equal).symm.trans leftward⟩
      · rw [if_neg leftward] at below
        exact absurd below tighter

/-- A right operand fits exactly when it binds as tightly as its operator asks. -/
theorem fits_right_iff (h : binding ∈ kind.operator?) :
    right.Fits .right binding.1 binding.2 ↔ right.Binds (binding.2.rightOperand binding.1) := by
  unfold Fits Binds
  rw [Kind.level_rightOperand h]
  cases binding.2 <;> grind

/-- An infix form is grouped when its operator may follow the left operand and the right operand
can be read at the level that the operator asks for. -/
theorem joined_iff (h : binding ∈ kind.operator?) :
    Joined kind left right ↔
      left.Follows (some kind) ∧ right.Binds (binding.2.rightOperand binding.1) := by
  rw [← fits_left_iff h, ← fits_right_iff h]
  have only : kind.operator? = some binding := h
  simp [Joined, only]

/-! ## Sound trees -/

/-- Every covered node of a tree is grouped. -/
def Sound (e : Expr) : Prop := e.Throughout fun e => e.isCovered = true → e.Grouped

/-- A tree that is sound and has only covered nodes needs no further parentheses. -/
theorem Sound.operatorCorrect (sound : e.Sound) (covered : e.InFragment) : e.OperatorCorrect := by
  induction covered with
  | node root _ ih =>
      cases sound with
      | node grouped parts =>
          exact .node (grouped root) fun part member => ih part member (parts part member)

theorem Sound.of_parts (root : e.isCovered = true → e.Grouped) (parts : ∀ part ∈ e.parts, part.Sound) :
    e.Sound := .node root parts

theorem Sound.joined (h : e.operands? = some (kind, left, right)) (grouped : Joined kind left right)
    (soundLeft : left.Sound) (soundRight : right.Sound) : e.Sound := by
  refine .of_parts (fun _ => (grouped_iff_joined h).mpr grouped) ?_
  rw [parts_of_operands h]
  simpa using And.intro soundLeft soundRight

/-- A signed tree whose operand was read at the level of signs. -/
theorem Sound.signed {span : Span} {op : UnaryOp} (sound : e.Sound) (binds : e.Binds .unary)
    (digits : ¬ (op = .neg ∧ e.isInteger)) : (Expr.unary span op e).Sound := by
  refine .of_parts (fun _ => ⟨?_, digits⟩) (by simpa [parts] using sound)
  -- An infix operand would bind as tightly as a sign, and no operator does.
  cases found : e.binding? with
  | none => rfl
  | some binding =>
      obtain ⟨_, known⟩ := exists_operator found
      have above := binds binding found
      have below := Kind.level_lt_unary known
      omega

end Expr

namespace Reader

/-! ## The forms of expressions -/

/-- What reading at level `least` achieves: a sound tree of that level, and a token behind it that
does not continue it. -/
structure Settled (least : Precedence) (e : Expr) (c : Cursor) : Prop where
  sound : e.Sound
  binds : e.Binds least
  stops : Stops least c.kind?

section Forms

variable {layout : Layout} {limit : Nat} {sub : Precedence → Reader Expr} {c c' : Cursor}
  {e : Expr}

/-- A reader of nested expressions, all of whose results are settled. -/
def Settles (sub : Precedence → Reader Expr) : Prop := ∀ least c, Ensures MayHalt c (sub least) (Settled least)

theorem Settles.always (settles : Settles sub) (least : Precedence) :
    Always AnyToken (sub least) fun e => e.Sound ∧ e.Binds least :=
  always_of_ensures fun c => (settles least c).mono fun _ _ settled => ⟨settled.sound, settled.binds⟩

theorem Settles.sound (settles : Settles sub) (least : Precedence) : Always AnyToken (sub least) Expr.Sound :=
  (settles.always least).mono fun _ settled => settled.1

/-- Things between commas up to `close`, which is not taken. -/
def row {α : Type} (item : Reader α) (close : Kind) : (rounds : Nat) → List α → Reader (List α)
  | 0, _ => exhausted
  | rounds + 1, items => do
      skipNewlines
      if ← sees close then
        return items
      let next ← item
      skipNewlines
      if ← sees .comma then
        advance
        row item close rounds (items ++ [next])
      else
        return items ++ [next]

theorem commaList_eq_row (close : Kind) (rounds : Nat) (items : List Expr) :
    commaList sub close rounds items = row (sub .lowest) close rounds items := by
  induction rounds generalizing items with
  | zero => rfl
  | succ rounds ih => simp only [commaList, row, ih]

theorem mapEntries_eq_row (rounds : Nat) (entries : List (Expr × Expr)) :
    mapEntries layout sub rounds entries =
      row (mapEntry layout sub) .rightBrace rounds entries := by
  induction rounds generalizing entries with
  | zero => rfl
  | succ rounds ih => simp only [mapEntries, row, ih]

/-- One more element behind those that have a property. -/
theorem forall_mem_concat {α : Type} {P : α → Prop} {items : List α} {next : α} (before : ∀ a ∈ items, P a)
    (holds : P next) : ∀ a ∈ items ++ [next], P a :=
  List.forall_mem_append.mpr ⟨before, List.forall_mem_singleton.mpr holds⟩

/-- What holds of every thing that is read holds of a whole row. -/
theorem always_row {α : Type} {T : Token → Prop} {P : α → Prop} {item : Reader α} (each : Always T item P)
    {close : Kind} {rounds : Nat} {items : List α} (before : ∀ a ∈ items, P a) :
    Always T (row item close rounds items) fun out => ∀ a ∈ out, P a := by
  -- A round reads one thing more and goes on behind a comma.
  induction rounds generalizing items with
  | zero => exact always_exhausted
  | succ rounds ih =>
      refine .skipNewlines (.sees fun closed => ?_)
      split
      · exact .pure before
      refine .bind each fun next holds => .skipNewlines (.sees fun comma => ?_)
      split
      · exact .advance (ih (forall_mem_concat before holds))
      · exact .pure (forall_mem_concat before holds)

/-- A row of expressions between two delimiters. -/
def delimited (layout : Layout) (limit : Nat) (sub : Precedence → Reader Expr)
    (opening closing : Kind) (start : Token → Nat) (form : Span → List Expr → Expr) :
    Reader Expr := do
  let token ← expect layout opening
  let items ← commaList sub closing limit []
  let _ ← expect layout closing
  return form (← spanFrom layout (start token)) items

theorem paren_eq_delimited : paren layout limit sub =
    delimited layout limit sub .leftParen .rightParen (·.span.start) .paren := rfl

theorem tuple_eq_delimited : tuple layout limit sub =
    delimited layout limit sub .leftBrace .rightBrace (·.span.start) .tuple := rfl

theorem callOf_eq_delimited (callee : Expr) : callOf layout limit sub callee =
    delimited layout limit sub .leftParen .rightParen (fun _ => callee.span.start)
      (fun span args => .call span callee args) := rfl

theorem indexOf_eq_delimited (target : Expr) : indexOf layout limit sub target =
    delimited layout limit sub .leftBracket .rightBracket (fun _ => target.span.start)
      (fun span args => .index span target args) := rfl

/-! ### What is read of nested expressions -/

section Nested

variable {T : Token → Prop} {P K R : Expr → Prop} (each : Always T (sub .lowest) P)

include each

theorem always_delimited {opening closing : Kind} {start : Token → Nat} {form : Span → List Expr → Expr}
    (whole : ∀ span items, (∀ item ∈ items, P item) → R (form span items)) :
    Always T (delimited layout limit sub opening closing start form) R := by
  refine .expect fun token => ?_
  rw [commaList_eq_row]
  refine .bind (always_row each nofun) fun items all => ?_
  exact .expect fun _ => .spanFrom fun span => .pure (whole span items all)

/-- The items of a list, and the tail, which only follows an item. -/
theorem always_listItems {rounds : Nat} {items : List Expr} (before : ∀ item ∈ items, P item) :
    Always T (listItems sub rounds items) fun out =>
      (∀ item ∈ out.1, P item) ∧ ∀ tail ∈ out.2, P tail ∧ out.1 ≠ [] := by
  induction rounds generalizing items with
  | zero => exact always_exhausted
  | succ rounds ih =>
      refine .skipNewlines (.sees fun closed => ?_)
      split
      · exact .pure ⟨before, nofun⟩
      refine .bind each fun next holds => .skipNewlines (.sees fun barred => ?_)
      have after : ∀ item ∈ items ++ [next], P item := forall_mem_concat before holds
      split
      -- Behind a bar stands the tail, with which the list ends.
      · refine .advance (.skipNewlines (.bind each fun tail last => .skipNewlines (.pure ⟨after, ?_⟩)))
        rintro _ ⟨⟩
        exact ⟨last, by simp⟩
      refine .sees fun comma => ?_
      split
      · exact .advance (ih after)
      · exact .pure ⟨after, nofun⟩

/-- An entry of a map has a name or an expression for its key. -/
theorem always_mapEntry (name : ∀ token : Token, token.kind = .identifier → T token →
      K (.atom token.span token.text)) (keys : Always T (sub .or) K) :
    Always T (mapEntry layout sub) fun entry => K entry.1 ∧ P entry.2 := by
  refine .get fun c _ => ?_
  split
  · refine .name fun key kind holds => .expect fun _ => .skipNewlines ?_
    exact .bind each fun value inside => .pure ⟨name key kind holds, inside⟩
  · refine .bind keys fun key first => .skipNewlines (.expect fun _ => .skipNewlines ?_)
    exact .bind each fun value second => .pure ⟨first, second⟩

end Nested

/-! ### Sound forms -/

/-- A reader whose results are sound and primary or postfix forms. -/
def GivesSimple (x : Reader Expr) : Prop := Always AnyToken x fun e => e.Sound ∧ e.isSimple = true

theorem paren_sound (settles : Settles sub) : GivesSimple (paren layout limit sub) := by
  rw [paren_eq_delimited]
  exact always_delimited (settles.sound _) fun span items sound => ⟨.of_parts (fun _ => trivial) sound, rfl⟩

theorem tuple_sound (settles : Settles sub) : GivesSimple (tuple layout limit sub) := by
  rw [tuple_eq_delimited]
  exact always_delimited (settles.sound _) fun span items sound => ⟨.of_parts (fun _ => trivial) sound, rfl⟩

theorem list_sound (settles : Settles sub) : GivesSimple (list layout limit sub) := by
  refine Always.after fun _ => .bind (always_listItems (settles.sound _) nofun) ?_
  refine fun (items, tail) ⟨sound, last⟩ => .after fun _ => .after fun span => ?_
  cases tail with
  | none => exact .pure ⟨.of_parts (fun _ => trivial) sound, rfl⟩
  | some tail =>
      obtain ⟨soundTail, nonempty⟩ := last tail rfl
      exact .pure ⟨.of_parts (fun _ => nonempty) (forall_mem_concat sound soundTail), rfl⟩

theorem map_sound (settles : Settles sub) : GivesSimple (map layout limit sub) := by
  refine Always.after fun _ => ?_
  rw [mapEntries_eq_row]
  -- A name is an atom, which has no operator and so binds tightly enough for a key.
  have entry : Always AnyToken (mapEntry layout sub) fun entry =>
      (entry.1.Sound ∧ entry.1.Binds .or) ∧ entry.2.Sound :=
    always_mapEntry (settles.sound _) (fun _ _ _ => ⟨.of_parts (fun _ => trivial) nofun, nofun⟩)
      (settles.always _)
  refine .bind (always_row entry nofun) fun entries sound => .after fun _ => .after fun span => .pure ?_
  refine ⟨.of_parts (fun _ entry member => (sound entry member).1.2) ?_, rfl⟩
  intro part member
  obtain ⟨entry, found, inside⟩ := List.mem_flatMap.mp member
  obtain ⟨⟨soundKey, -⟩, soundValue⟩ := sound entry found
  simp only [List.mem_cons, List.not_mem_nil, or_false] at inside
  rcases inside with rfl | rfl
  · exact soundKey
  · exact soundValue

/-- Conditionals are not covered, so nothing is asked of them. -/
theorem cond_sound {rounds : Nat} : GivesSimple (cond layout limit sub rounds) := by
  cases rounds with
  | zero => exact always_exhausted
  | succ rounds =>
      have whole {start : Nat} {condition : Expr} {thenBlock elseBlock : List Stmt} :
          GivesSimple (do return .cond (← spanFrom layout start) condition thenBlock elseBlock) :=
        .after fun _ => .pure ⟨.of_parts nofun nofun, rfl⟩
      refine Always.after fun _ => .after fun _ => .after fun _ => .after fun hasElse => ?_
      -- The three shapes of an `else` end alike.
      split
      · refine .after fun _ => .after fun chained => ?_
        split
        · exact .after fun _ => .after fun _ => whole
        · exact .after fun _ => whole
      · exact .after fun _ => whole

theorem integerValue?_le {text : String} {n : Nat} (h : integerValue? text = some n) :
    n ≤ maxInteger := by
  unfold integerValue? at h
  simp only [Option.ite_none_right_eq_some, Option.some.injEq] at h
  exact h.2 ▸ h.1

/-- The literal or name that a token is, kind by kind. -/
inductive LeafOf (token : Token) : Expr → Prop where
  | integer {n : Nat} (kind : token.kind = .integer) (value : integerValue? token.text = some n) :
      LeafOf token (.integer token.span n)
  | float {x : Float} (kind : token.kind = .float) : LeafOf token (.float token.span x)
  | quoted {s : String} (kind : token.kind = .quoted) : LeafOf token (.text token.span s)
  | atom (kind : token.kind = .atom) :
      LeafOf token (.atom token.span (String.ofList (token.text.toList.drop 1)))
  | true (kind : token.kind = .kwTrue) : LeafOf token (.bool token.span true)
  | false (kind : token.kind = .kwFalse) : LeafOf token (.bool token.span false)
  | nil (kind : token.kind = .kwNil) : LeafOf token (.nil token.span)
  | ident (kind : token.kind = .identifier) : LeafOf token (.ident token.span token.text)

theorem leafOf_of_leaf? {token : Token} (h : leaf? token = some (.ok e)) : LeafOf token e := by
  -- The first three kinds have a text that may be refused; the others are leaves as they are.
  unfold leaf? at h
  cases kind : token.kind <;> simp only [kind, reduceCtorEq, Option.some.injEq] at h
  case integer =>
      cases value : integerValue? token.text <;> simp only [value] at h <;> cases h
      exact .integer kind value
  case float =>
      cases value : Decimal.readFloat? (token.text.toList.filter (· != '_')) <;>
        simp only [value] at h <;> cases h
      exact .float kind
  case quoted =>
      cases value : Token.unescape token.text <;> simp only [value] at h <;> cases h
      exact .quoted kind
  case atom => cases h; exact .atom kind
  case kwTrue => cases h; exact .true kind
  case kwFalse => cases h; exact .false kind
  case kwNil => cases h; exact .nil kind
  case identifier => cases h; exact .ident kind

theorem leaf?_sound {token : Token} (h : leaf? token = some (.ok e)) :
    e.Sound ∧ e.isSimple = true := by
  cases leafOf_of_leaf? h with
  | integer _ value =>
      refine ⟨.of_parts (fun _ => ?_) nofun, by simp [Expr.isSimple]⟩
      exact integerValue?_le value
  | float => exact ⟨.of_parts nofun nofun, rfl⟩
  | _ => exact ⟨.of_parts (fun _ => trivial) nofun, rfl⟩

theorem primary_sound (settles : Settles sub) : GivesSimple (primary layout limit sub) := by
  refine Always.get fun c _ => ?_
  cases c.current with
  | none => exact always_unexpected _
  | some token =>
      cases leaf : leaf? token with
      | some result =>
          simp only [leaf]
          cases result with
          | ok e => exact .after fun _ => .pure (leaf?_sound leaf)
          | error error => exact .after fun _ => always_fail error
      | none =>
          simp only [leaf]
          -- A token that is no leaf opens a form, or nothing.
          cases token.kind
          case leftParen => exact paren_sound settles
          case leftBracket => exact list_sound settles
          case leftBrace => exact tuple_sound settles
          case percentBrace => exact map_sound settles
          case kwIf => exact cond_sound
          all_goals exact always_unexpected _

/-! ## Operands and operators -/

/-- A sign folded into a number, or set before anything else, leaves a sound tree. -/
theorem negated_sound {span : Span} (sound : e.Sound) (binds : e.Binds .unary) :
    (negated span e).Sound ∧ (negated span e).binding? = none := by
  cases e with
  | integer _ n =>
      cases sound with
      | node root _ =>
          have range : n.natAbs ≤ maxInteger := root rfl
          refine ⟨.of_parts (fun _ => ?_) nofun, rfl⟩
          simpa [negated, Expr.Grouped] using range
  | float => exact ⟨.of_parts nofun nofun, rfl⟩
  | _ => exact ⟨.signed sound binds (fun h => nomatch h.2), rfl⟩

/-- An operand is sound, has no operator at its root, and no postfix form can follow it unless it
is primary. -/
theorem operand_sound (settles : Settles sub) (c : Cursor) :
    Ensures MayHalt c (operand layout limit sub) fun e c' =>
      e.Sound ∧ e.binding? = none ∧ e.Follows c'.kind? := by
  -- What follows a sign and its operand stopped the reader of the operand.
  have follows {e : Expr} {c : Cursor} (none : e.binding? = none) (stops : Stops .unary c.kind?) :
      e.Follows c.kind? := Expr.follows_of_stops (Expr.binds_of_binding?_none none) stops
  refine Leads.currentSpan (Leads.sees (.ite (fun _ => ?_) fun _ => ?_))
  · refine Leads.advance (Ensures.bind (settles .unary _) fun inner c₁ settled => Leads.spanFrom ?_)
    obtain ⟨sound, none⟩ := negated_sound settled.sound settled.binds
    exact Ensures.pure ⟨sound, none, follows none settled.stops⟩
  refine Leads.sees (.ite (fun _ => ?_) fun _ => ?_)
  · refine Leads.advance (Ensures.bind (settles .unary _) fun inner c₁ settled => Leads.spanFrom ?_)
    exact Ensures.pure ⟨.signed settled.sound settled.binds (fun digits => nomatch digits.1), rfl,
      follows rfl settled.stops⟩
  · refine Ensures.mono ((primary_sound settles).ensures c) fun e c' ⟨sound, simple⟩ => ?_
    exact ⟨sound, Expr.binding?_of_isSimple simple, Expr.follows_of_isSimple simple⟩

/-- Joining two operands gives the infix form of the operator. -/
theorem combine_operands {kind : Kind} {binding : Precedence × Associativity} {left right : Expr}
    (h : binding ∈ kind.operator?) :
    (combine kind left right).operands? = some (kind, left, right) := by
  cases kind <;> first | rfl | cases h

section Steps

variable {least : Precedence} {rounds : Nat} {left : Expr} {kind : Kind}

theorem continuation_of_leftParen (h : c.kind? = some .leftParen) :
    continuation layout limit sub least (rounds + 1) left c =
      (callOf layout limit sub left >>= continuation layout limit sub least rounds) c := by
  rw [continuation, get_bind, h]

theorem continuation_of_leftBracket (h : c.kind? = some .leftBracket) :
    continuation layout limit sub least (rounds + 1) left c =
      (indexOf layout limit sub left >>= continuation layout limit sub least rounds) c := by
  rw [continuation, get_bind, h]

theorem continuation_of_dot (h : c.kind? = some .dot) :
    continuation layout limit sub least (rounds + 1) left c =
      (fieldOf layout left >>= continuation layout limit sub least rounds) c := by
  rw [continuation, get_bind, h]

/-- An operator that binds tightly enough takes the tree as its left operand. -/
theorem continuation_of_operator {binding : Precedence × Associativity} (h : c.kind? = some kind)
    (operator : binding ∈ kind.operator?) (tight : least.level ≤ binding.1.level) :
    continuation layout limit sub least (rounds + 1) left c =
      (do
        advance
        skipNewlines
        let right ← sub (binding.2.rightOperand binding.1)
        continuation layout limit sub least rounds (combine kind left right)) c := by
  rw [continuation, get_bind, h]
  cases kind <;> cases operator
  all_goals exact congrFun (if_neg (Nat.not_lt.mpr tight)) c

/-- The loop ends before a token that does not continue the tree. -/
theorem continuation_of_stops (h : Stops least c.kind?) :
    continuation layout limit sub least (rounds + 1) left c = .ok left c := by
  rw [continuation, get_bind]
  cases next : c.kind? with
  | none => rfl
  | some kind =>
      obtain ⟨closed, below⟩ := h kind next
      cases operator : kind.operator? with
      | none =>
          cases kind <;>
            first | rfl | exact absurd closed (by decide) | exact absurd operator (by decide)
      | some binding =>
          have looser := below binding operator
          cases kind <;> cases operator
          all_goals exact congrFun (if_pos looser) c

end Steps

/-! ## The loop over operators -/

section Postfix

variable {target : Expr} (sound : target.Sound) (simple : target.isSimple = true)

include sound simple

/-- A postfix form over a primary or postfix form is sound, and anything may follow it. -/
theorem callOf_sound (settles : Settles sub) : GivesSimple (callOf layout limit sub target) := by
  rw [callOf_eq_delimited]
  exact always_delimited (settles.sound _) fun span args soundArgs =>
    ⟨.of_parts (fun _ => simple) (List.forall_mem_cons.mpr ⟨sound, soundArgs⟩), rfl⟩

theorem indexOf_sound (settles : Settles sub) : GivesSimple (indexOf layout limit sub target) := by
  rw [indexOf_eq_delimited]
  exact always_delimited (settles.sound _) fun span args soundArgs =>
    ⟨.of_parts (fun _ => simple) (List.forall_mem_cons.mpr ⟨sound, soundArgs⟩), rfl⟩

theorem fieldOf_sound : GivesSimple (fieldOf layout target) := by
  refine Always.after fun _ => .after fun name => .after fun span => .pure ?_
  refine ⟨.of_parts (fun _ => simple) ?_, rfl⟩
  exact List.forall_mem_singleton.mpr sound

end Postfix

/-- A token that does not end the loop opens a postfix form or is a tight enough operator. -/
theorem continues_of_not_stops {least : Precedence} {next : Option Kind}
    (h : ¬ Stops least next) :
    next = some .leftParen ∨ next = some .leftBracket ∨ next = some .dot ∨
      ∃ kind binding, next = some kind ∧ binding ∈ kind.operator? ∧
        least.level ≤ binding.1.level := by
  cases next with
  | none => exact absurd nofun h
  | some kind =>
      by_cases postfixed : kind.opensPostfix = true
      · cases kind <;> simp_all [Kind.opensPostfix]
      · refine .inr (.inr (.inr ?_))
        -- If no operator were tight enough, the loop would end here.
        apply Classical.byContradiction
        intro nothing
        refine h ?_
        rintro _ ⟨⟩
        refine ⟨by simpa using postfixed, fun binding operator => ?_⟩
        apply Nat.lt_of_not_le
        intro tight
        exact nothing ⟨kind, binding, rfl, operator, tight⟩

/-- The loop keeps a sound tree of its level that the next token may follow, and it ends with a
token that does not continue the tree. -/
theorem continuation_settled (settles : Settles sub) {least : Precedence} {rounds : Nat}
    {left : Expr} (sound : left.Sound) (binds : left.Binds least) (follows : left.Follows c.kind?) :
    Ensures MayHalt c (continuation layout limit sub least rounds left) (Settled least) := by
  induction rounds generalizing left c with
  | zero => exact .halt trivial
  | succ rounds ih =>
      -- A postfix form is simple: it has no level, and anything may follow it.
      have applied {form : Reader Expr} (simple : GivesSimple form) :
          Ensures MayHalt c (form >>= continuation layout limit sub least rounds) (Settled least) := by
        refine (simple.ensures c).bind fun next c₁ ⟨sound, simple⟩ => ih sound ?_ ?_
        · exact Expr.binds_of_binding?_none (Expr.binding?_of_isSimple simple)
        · exact Expr.follows_of_isSimple simple
      have simple : ∀ {kind : Kind}, c.kind? = some kind → kind.opensPostfix = true →
          left.isSimple = true := by
        intro kind next opens
        cases simple : left.isSimple with
        | true => rfl
        | false =>
            have closed := (follows kind next).1 simple
            simp [opens] at closed
      by_cases stops : Stops least c.kind?
      · exact .step (continuation_of_stops stops) ⟨sound, binds, stops⟩
      rcases continues_of_not_stops stops with next | next | next | found
      · refine Leads.congr (fun _ => continuation_of_leftParen next) (applied ?_)
        exact callOf_sound sound (simple next rfl) settles
      · refine Leads.congr (fun _ => continuation_of_leftBracket next) (applied ?_)
        exact indexOf_sound sound (simple next rfl) settles
      · refine Leads.congr (fun _ => continuation_of_dot next) (applied ?_)
        exact fieldOf_sound sound (simple next rfl)
      · obtain ⟨kind, binding, next, operator, tight⟩ := found
        refine Leads.congr (fun _ => continuation_of_operator next operator tight) ?_
        refine Leads.advance (Leads.skipNewlines (Ensures.bind (settles _ _) fun right c₁ settled => ?_))
        have form : (combine kind left right).operands? = some (kind, left, right) :=
          combine_operands operator
        have bound : (combine kind left right).binding? = some binding :=
          (Expr.binding?_of_operands form).trans operator
        have grouped : Expr.Joined kind left right :=
          (Expr.joined_iff operator).mpr ⟨next ▸ follows, settled.binds⟩
        refine ih (.joined form grouped sound settled.sound) ?_ ?_
        · rintro _ member
          cases bound.symm.trans member
          exact tight
        · exact (Expr.follows_iff_of_binding bound).mpr settled.stops

end Forms

/-- Every reader of nested expressions settles what it reads. -/
theorem expressionAt_settles (layout : Layout) (limit : Nat) :
    Settles (expressionAt layout limit) := by
  induction limit with
  | zero => exact fun least c => .halt trivial
  | succ limit ih =>
      intro least c
      refine Ensures.bind (operand_sound ih c) fun left c₁ ⟨sound, operand, follows⟩ => ?_
      exact continuation_settled ih sound (Expr.binds_of_binding?_none operand) follows

end Reader

/-- A text that reads as a tree was read, behind its first newlines, as a nested expression of the lowest
level. -/
theorem exists_expressionAt {source : List Char} {e : Expr}
    (h : parseExpression source = .ok e) :
    ∃ limit c c', Reader.skipNewlines (Cursor.ofLexemes (Token.scan source)) = .ok () c ∧
      Reader.expressionAt (Layout.ofText source) limit .lowest c = .ok e c' := by
  unfold parseExpression readExpression at h
  simp only at h
  split at h
  case h_1 tree c' run =>
      cases h
      simp only [EStateM.run, Reader.bind_eq_ok] at run
      obtain ⟨_, c, skipped, e', c₁, read, _, _, -, d, c₂, -, run⟩ := run
      -- A token that is left over and an error that was recorded make the reading fail.
      cases token : d.current with
      | some token =>
          simp only [token] at run
          exact absurd run Reader.fail_ne_ok
      | none =>
          simp only [token, Reader.bind_eq_ok] at run
          obtain ⟨d', c₃, -, run⟩ := run
          cases errors : d'.errors with
          | cons first rest =>
              simp only [errors] at run
              exact absurd run Reader.fail_ne_ok
          | nil =>
              simp only [errors] at run
              obtain ⟨rfl, -⟩ := Reader.pure_eq_ok.mp run
              exact ⟨_, c, c₁, skipped, read⟩
  case h_2 => cases h
  case h_3 => cases h

/-- Whatever is read from a text has its operators grouped by their levels. -/
theorem sound_of_parseExpression {source : List Char} {e : Expr}
    (h : parseExpression source = .ok e) : e.Sound := by
  obtain ⟨limit, c, c', -, read⟩ := exists_expressionAt h
  exact ((Reader.expressionAt_settles _ limit _ c).of_run read).sound

end Surface
end Clausal
