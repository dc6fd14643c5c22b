import Clausal.Proofs.Syntax.Reading

/-!
# Reading the words of one form

Literals, names, signs and delimited forms are read from their words, provided that what is inside them
is.  The lemmas about delimited forms do not ask what stands between the delimiters: they hold of
anything whose words are read item by item (`Reader.ReadsItem`).
-/

namespace Clausal
namespace Surface

open Token (Kind)
open Word (fixed separated)

/-! ## Trees and their words -/

namespace Expr

/-- Joining the operands of an infix form gives the form. -/
theorem erase_combine {e left right left' right' : Expr} {kind : Kind}
    (form : e.operands? = some (kind, left, right)) (sameLeft : left'.erase = left.erase)
    (sameRight : right'.erase = right.erase) :
    (Reader.combine kind left' right').erase = e.erase := by
  cases e <;> cases form
  case binary op =>
      rcases op with op | _ | _
      · cases op <;>
          simp only [operatorKind, Reader.combine, Reader.binaryOp, erase, sameLeft, sameRight]
      · simp only [operatorKind, Reader.combine, Reader.binaryOp, erase, sameLeft, sameRight]
      · simp only [operatorKind, Reader.combine, Reader.binaryOp, erase, sameLeft, sameRight]
  all_goals simp only [Reader.combine, erase, sameLeft, sameRight]

/-- The digits of a number in range are read as the number. -/
theorem leaf?_integer {n : Nat} (range : n ≤ Reader.maxInteger) (span : Span) :
    Reader.leaf? ⟨.integer, n.repr, span⟩ = some (.ok (.integer span n)) := by
  have digits : n.repr.toList.filter (· != '_') = Nat.toDigits 10 n := by
    rw [Nat.toList_repr]
    refine List.filter_eq_self.mpr fun c member => ?_
    have noMark : c ≠ '_' := by
      rintro rfl
      exact Nat.underscore_not_in_toDigits member
    simpa using noMark
  have read : Reader.integerValue? n.repr = some n := by
    simp only [Reader.integerValue?, digits, Decimal.natOfDigits_toDigits, if_pos range]
  simp only [Reader.leaf?, read]

end Expr

namespace Reader

open Cursor (headKind)

theorem stops_of_separator {least : Precedence} {next : Option Kind} {kind : Kind}
    (head : next = some kind) (closed : kind.opensPostfix = false ∧ kind.operator? = none) :
    Stops least next := by
  rintro _ member
  cases head.symm.trans member
  refine ⟨closed.1, ?_⟩
  rw [closed.2]
  nofun

/-! ## Delimited forms -/

section Delimited

variable {α : Type} {layout : Layout} {limit : Nat} {sub : Precedence → Reader Expr} {c : Cursor}
  {rest : List Word} {items : List α} {words : α → List Word}

/-- A reader takes the words of `a` as far as they go, and what it gives is a reading of `a`. -/
def ReadsItem {β : Type} (item : Reader β) (words : α → List Word) (reading : β → α → Prop) (a : α) :
    Prop :=
  ∀ c after, Stops .lowest (headKind after) → c.Ahead (words a ++ after) →
    Run item c after fun out => reading out a

/-- A row has at least as many words as items. -/
theorem length_le_separated_map (starts : ∀ a ∈ items, Starts (words a)) :
    items.length ≤ (separated (items.map words)).length := by
  simpa using length_rows_le_separated
    (List.forall_mem_map.mpr fun a member => (starts a member).length_pos)

/-- Things between commas are read up to the closing token. -/
theorem run_items {β : Type} {item : Reader β} {reading : β → α → Prop} {close : Kind}
    {rounds : Nat} (closes : closesRow close = true)
    (reads : ∀ a ∈ items, ReadsItem item words reading a) (starts : ∀ a ∈ items, Starts (words a))
    (enough : (separated (items.map words)).length < rounds)
    (ahead : c.Ahead (separated (items.map words) ++ fixed close :: rest)) :
    Run (row item close rounds []) c (fixed close :: rest)
      fun out => List.Forall₂ reading out items := by
  have count := length_le_separated_map starts
  -- What closes a row is no operator, so an item ends in front of it.
  have closed : close.opensPostfix = false ∧ close.operator? = none := by
    cases close <;> first | decide | cases closes
  have each : ∀ a ∈ items, ∀ c after,
      headKind after = some .comma ∨ headKind after = some close →
      c.Ahead (words a ++ after) → Run item c after fun out => reading out a := by
    intro a member c after next ahead
    refine reads a member c after ?_ ahead
    rcases next with next | next
    · exact stops_of_separator next (by decide)
    · exact stops_of_separator next closed
  refine (run_row closes each starts (by omega) ahead).mono ?_
  rintro _ ⟨read, rfl, related⟩
  simpa using related

/-- A row between delimiters is read inside its form. -/
theorem run_delimited {reading : Expr → α → Prop} {opening closing : Kind}
    (closes : closesRow closing = true) {start : Token → Nat} {form : Span → List Expr → Expr}
    (reads : ∀ a ∈ items, ReadsItem (sub .lowest) words reading a)
    (starts : ∀ a ∈ items, Starts (words a))
    (enough : (separated (items.map words)).length < limit)
    (ahead : c.Ahead (fixed opening :: (separated (items.map words) ++ fixed closing :: rest))) :
    Run (delimited layout limit sub opening closing start form) c rest fun out =>
      ∃ span items', out = form span items' ∧ List.Forall₂ reading items' items := by
  refine (run_expect ahead).bind fun _ c₁ _ ahead => ?_
  rw [commaList_eq_row]
  refine (run_items closes reads starts enough ahead).bind fun items' c₂ related ahead => ?_
  refine (run_expect ahead).bind fun _ c₃ _ ahead => ?_
  refine (run_spanFrom ahead).bind fun span c₄ _ ahead => ?_
  exact .pure ⟨span, items', rfl, related⟩ ahead

/-- The words of the tail of a list. -/
def tailWords (words : α → List Word) : Option α → List Word
  | none => []
  | some tail => fixed .pipe :: words tail

/-- The items of a list are read, and the tail after the last of them. -/
theorem run_listItems {reading : Expr → α → Prop} {before : List Expr} {tail : Option α}
    {rounds : Nat} (reads : ∀ a ∈ items, ReadsItem (sub .lowest) words reading a)
    (readsTail : ∀ a ∈ tail, ReadsItem (sub .lowest) words reading a)
    (starts : ∀ a ∈ items, Starts (words a)) (nonempty : tail.isSome → items ≠ [])
    (enough : items.length < rounds)
    (ahead : c.Ahead (separated (items.map words) ++
      (tailWords words tail ++ fixed .rightBracket :: rest))) :
    Run (listItems sub rounds before) c (fixed .rightBracket :: rest) fun out =>
      (∃ read, out.1 = before ++ read ∧ List.Forall₂ reading read items) ∧
        Option.Rel reading out.2 tail := by
  induction items generalizing before rounds c with
  | nil =>
      obtain ⟨rounds, rfl⟩ := Nat.exists_eq_succ_of_ne_zero (Nat.ne_zero_of_lt enough)
      obtain rfl : tail = none := by
        cases tail with
        | none => rfl
        | some tail => exact absurd rfl (nonempty rfl)
      rw [listItems]
      refine (run_skipNewlines ahead).bind fun _ c₁ _ ahead => ?_
      refine (run_sees ahead .rightBracket).bind fun closed c₂ seen ahead => ?_
      have found : closed = true := by simpa [separated, tailWords, fixed] using seen
      rw [if_pos found]
      exact .pure ⟨⟨[], by simp⟩, .none⟩ ahead
  | cons a items ih =>
      obtain ⟨rounds, rfl⟩ := Nat.exists_eq_succ_of_ne_zero (Nat.ne_zero_of_lt enough)
      rw [List.map_cons, separated_cons] at ahead
      rw [listItems]
      refine (run_skipNewlines ahead).bind fun _ c₁ _ ahead => ?_
      refine (run_sees ahead .rightBracket).bind fun closed c₂ seen ahead => ?_
      have more : ¬ closed = true := by
        rw [seen]
        simpa using (starts a List.mem_cons_self).headKind_ne rfl _
      rw [if_neg more]
      have after : Stops .lowest (headKind
          (behind (items.map words) (tailWords words tail ++ fixed .rightBracket :: rest))) := by
        cases items with
        | nil => cases tail <;> exact stops_of_separator rfl (by decide)
        | cons second items => exact stops_of_separator rfl (by decide)
      refine (reads a List.mem_cons_self c₂ _ after ahead).bind fun next c₃ same ahead => ?_
      refine (run_skipNewlines ahead).bind fun _ c₄ _ ahead => ?_
      refine (run_sees ahead .pipe).bind fun barred c₅ seen ahead => ?_
      -- A bar can only follow the last item; behind any other there is a comma.
      cases items with
      | nil =>
          cases tail with
          | none =>
              have plain : ¬ barred = true := by simp [seen, behind, tailWords, fixed]
              rw [if_neg plain]
              refine (run_sees ahead .comma).bind fun comma c₆ seen ahead => ?_
              have last : ¬ comma = true := by simp [seen, behind, tailWords, fixed]
              rw [if_neg last]
              exact .pure ⟨⟨[next], rfl, .cons same .nil⟩, .none⟩ ahead
          | some tail =>
              have bar : barred = true := by simpa [behind, tailWords, fixed] using seen
              rw [if_pos bar]
              refine (run_advance ahead).bind fun _ c₆ _ ahead => ?_
              refine (run_skipNewlines ahead).bind fun _ c₇ _ ahead => ?_
              refine (readsTail tail rfl c₇ _ (stops_of_separator rfl (by decide)) ahead).bind
                fun ending c₈ sameTail ahead => ?_
              refine (run_skipNewlines ahead).bind fun _ c₉ _ ahead => ?_
              exact .pure ⟨⟨[next], rfl, .cons same .nil⟩, .some sameTail⟩ ahead
      | cons second items =>
          have plain : ¬ barred = true := by simp [seen, behind, fixed]
          rw [if_neg plain]
          refine (run_sees ahead .comma).bind fun comma c₆ seen ahead => ?_
          have goesOn : comma = true := by simpa [behind, fixed] using seen
          rw [if_pos goesOn]
          refine (run_advance ahead).bind fun _ c₇ _ ahead => ?_
          refine (ih (fun a member => reads a (List.mem_cons_of_mem _ member))
            (fun a member => starts a (List.mem_cons_of_mem _ member))
            (fun _ => List.cons_ne_nil _ _) (Nat.lt_of_succ_lt_succ enough) ahead).mono ?_
          rintro ⟨_, ending⟩ ⟨⟨read, rfl, related⟩, sameTail⟩
          exact ⟨⟨next :: read, by simp, .cons same related⟩, sameTail⟩

/-- A list, with its tail if it has one. -/
def listOf (span : Span) (items : List Expr) : Option Expr → Expr
  | none => .list span items
  | some tail => .listTail span items tail

/-- A list is read, with its tail if it has one. -/
theorem run_list {reading : Expr → α → Prop} (tail : Option α)
    (reads : ∀ a ∈ items, ReadsItem (sub .lowest) words reading a)
    (readsTail : ∀ a ∈ tail, ReadsItem (sub .lowest) words reading a)
    (starts : ∀ a ∈ items, Starts (words a)) (nonempty : tail.isSome → items ≠ [])
    (enough : (separated (items.map words)).length < limit)
    (ahead : c.Ahead (fixed .leftBracket :: (separated (items.map words) ++
      (tailWords words tail ++ fixed .rightBracket :: rest)))) :
    Run (list layout limit sub) c rest fun out =>
      ∃ span items' tail', out = listOf span items' tail' ∧ List.Forall₂ reading items' items ∧
        Option.Rel reading tail' tail := by
  have count := length_le_separated_map starts
  refine (run_expect ahead).bind fun _ c₁ _ ahead => ?_
  refine (run_listItems reads readsTail starts nonempty (by omega) ahead).bind
    fun out c₂ same ahead => ?_
  obtain ⟨items', tail'⟩ := out
  obtain ⟨⟨_, rfl, related⟩, sameTail⟩ := same
  refine (run_expect ahead).bind fun _ c₃ _ ahead => ?_
  refine (run_spanFrom ahead).bind fun span c₄ _ ahead => ?_
  cases tail' with
  | none => exact .pure ⟨span, _, none, rfl, related, sameTail⟩ ahead
  | some tail' => exact .pure ⟨span, _, some tail', rfl, related, sameTail⟩ ahead

/-- A map is read entry by entry. -/
theorem run_map {reading : Expr × Expr → α → Prop}
    (reads : ∀ a ∈ items, ReadsItem (mapEntry layout sub) words reading a)
    (starts : ∀ a ∈ items, Starts (words a))
    (enough : (separated (items.map words)).length < limit)
    (ahead : c.Ahead
      (fixed .percentBrace :: (separated (items.map words) ++ fixed .rightBrace :: rest))) :
    Run (map layout limit sub) c rest fun out =>
      ∃ span entries, out = .map span entries ∧ List.Forall₂ reading entries items := by
  refine (run_expect ahead).bind fun _ c₁ _ ahead => ?_
  rw [mapEntries_eq_row]
  refine (run_items rfl reads starts enough ahead).bind fun entries c₂ related ahead => ?_
  refine (run_expect ahead).bind fun _ c₃ _ ahead => ?_
  refine (run_spanFrom ahead).bind fun span c₄ _ ahead => ?_
  exact .pure ⟨span, entries, rfl, related⟩ ahead

/-- An entry with an arrow is read: a key that is not a name before a colon, and a value. -/
theorem run_arrowEntry {key value : List Word} {P Q : Expr → Prop}
    (noColon : ∀ word words, key = word :: words → word.kind = .identifier →
      headKind (words ++ [fixed .fatArrow]) ≠ some .colon)
    (readsKey : ∀ c after, Stops .or (headKind after) → c.Ahead (key ++ after) →
      Run (sub .or) c after P)
    (readsValue : ∀ c, c.Ahead (value ++ rest) → Run (sub .lowest) c rest Q)
    (ahead : c.Ahead (key ++ fixed .fatArrow :: (value ++ rest))) :
    Run (mapEntry layout sub) c rest fun out => P out.1 ∧ Q out.2 := by
  have arrow : ¬ (c.sees .identifier && c.nextKind? == some .colon) = true := by
    rw [Cursor.sees, ahead.kind?_eq]
    cases key with
    | nil => simp [fixed]
    | cons word words =>
        have next := ahead.nextKind?_eq
        intro isName
        simp only [List.cons_append, Cursor.headKind_cons, Bool.and_eq_true, beq_iff_eq,
          Option.some.injEq] at isName
        refine noColon word words rfl isName.1 ?_
        rw [← isName.2, next]
        cases words <;> rfl
  unfold mapEntry
  apply Leads.get
  simp only [if_neg arrow]
  refine Run.bind (readsKey c _ (stops_of_separator rfl (by decide)) ahead)
    fun key c₁ sameKey ahead => ?_
  refine (run_skipNewlines ahead).bind fun _ c₂ _ ahead => ?_
  refine (run_expect ahead).bind fun _ c₃ _ ahead => ?_
  refine (run_skipNewlines ahead).bind fun _ c₄ _ ahead => ?_
  refine (readsValue c₄ ahead).bind fun value c₅ sameValue ahead => ?_
  exact .pure ⟨sameKey, sameValue⟩ ahead

/-- An entry with a colon is read: the key is the atom of the name before the colon. -/
theorem run_colonEntry {name : String} {value : List Word} {Q : Expr → Prop}
    (readsValue : ∀ c, c.Ahead (value ++ rest) → Run (sub .lowest) c rest Q)
    (ahead : c.Ahead (.ident name :: fixed .colon :: (value ++ rest))) :
    Run (mapEntry layout sub) c rest fun out => (∃ span, out.1 = .atom span name) ∧ Q out.2 := by
  have colon : (c.sees .identifier && c.nextKind? == some .colon) = true := by
    rw [Cursor.sees, ahead.kind?_eq, ahead.nextKind?_eq]
    rfl
  unfold mapEntry
  apply Leads.get
  simp only [if_pos colon]
  refine Run.bind (run_takeAs ahead rfl) fun token c₁ text ahead => ?_
  refine (run_expect ahead).bind fun _ c₂ _ ahead => ?_
  refine (run_skipNewlines ahead).bind fun _ c₃ _ ahead => ?_
  refine (readsValue c₃ ahead).bind fun value c₄ sameValue ahead => ?_
  exact .pure ⟨⟨token.span, by rw [text]; rfl⟩, sameValue⟩ ahead

end Delimited

/-! ## Operands -/

section Operands

variable {layout : Layout} {limit : Nat} {sub : Precedence → Reader Expr} {c : Cursor}
  {rest : List Word}

/-- A word that is a literal or a name is read as its leaf. -/
theorem run_leaf {word : Word} {P : Expr → Prop}
    (leaf : ∀ span, ∃ e, leaf? ⟨word.kind, word.text, span⟩ = some (.ok e) ∧ P e)
    (ahead : c.Ahead (word :: rest)) : Run (primary layout limit sub) c rest P := by
  obtain ⟨span, current, -⟩ := ahead.token
  obtain ⟨e, isLeaf, holds⟩ := leaf span
  have run : primary layout limit sub c = .ok e c.advance := by
    rw [primary, get_bind, current]
    simp only [isLeaf]
    rfl
  exact Ensures.step run ⟨holds, ahead.advance⟩

/-- The reader of the form that begins with a delimiter. -/
def formOf? (layout : Layout) (limit : Nat) (sub : Precedence → Reader Expr) :
    Kind → Option (Reader Expr)
  | .leftParen => some (paren layout limit sub)
  | .leftBracket => some (list layout limit sub)
  | .leftBrace => some (tuple layout limit sub)
  | .percentBrace => some (map layout limit sub)
  | _ => none

theorem primary_of_formOf? {form : Reader Expr} {kind : Kind}
    (known : formOf? layout limit sub kind = some form) (ahead : c.Ahead (fixed kind :: rest)) :
    primary layout limit sub c = form c := by
  obtain ⟨span, current, -⟩ := ahead.token
  rw [primary, get_bind, current]
  cases kind <;> cases known <;> rfl

/-- What begins with no sign is read as a primary expression. -/
theorem run_operand_of_primary {words : List Word} {P : Expr → Prop}
    (minus : headKind words ≠ some .minus) (negation : headKind words ≠ some .kwNot)
    (ahead : c.Ahead words)
    (run : ∀ c, c.Ahead words → Run (primary layout limit sub) c rest P) :
    Run (operand layout limit sub) c rest P := by
  refine (run_currentSpan ahead).bind fun _ c₁ _ ahead => ?_
  refine (run_sees ahead .minus).bind fun signed c₂ seen ahead => ?_
  rw [if_neg (by simpa [seen] using minus)]
  refine (run_sees ahead .kwNot).bind fun negated c₃ seen ahead => ?_
  rw [if_neg (by simpa [seen] using negation)]
  exact run c₃ ahead

/-- What is read from a single token is read so as an operand, as no sign is such a token. -/
theorem run_operand_of_leaf {word : Word} {P : Expr → Prop} (ahead : c.Ahead (word :: rest))
    (leaf : ∀ span, ∃ e, leaf? ⟨word.kind, word.text, span⟩ = some (.ok e) ∧ P e) :
    Run (operand layout limit sub) c rest P := by
  obtain ⟨_, known, _⟩ := leaf .synthetic
  have unsigned : word.kind ≠ .minus ∧ word.kind ≠ .kwNot := by
    constructor
    all_goals
      intro sign
      rw [sign] at known
      cases known
  exact run_operand_of_primary (by simpa using unsigned.1) (by simpa using unsigned.2) ahead
    fun _ ahead => run_leaf leaf ahead

/-- What begins with a delimiter is read by the reader of its form. -/
theorem run_operand_of_form {form : Reader Expr} {kind : Kind} {words : List Word}
    {P : Expr → Prop} (ahead : c.Ahead (fixed kind :: words))
    (known : formOf? layout limit sub kind = some form)
    (run : ∀ c, c.Ahead (fixed kind :: words) → Run form c rest P) :
    Run (operand layout limit sub) c rest P := by
  have unsigned : kind ≠ .minus ∧ kind ≠ .kwNot := by
    cases kind <;> first | decide | cases known
  refine run_operand_of_primary (by simpa [fixed] using unsigned.1)
    (by simpa [fixed] using unsigned.2) ahead fun c ahead => ?_
  exact Leads.congr (fun _ => primary_of_formOf? known ahead) (run c ahead)

/-- A minus sign is folded into what is read behind it. -/
theorem run_operand_of_minus {words : List Word} {P Q : Expr → Prop}
    (reads : ∀ c, c.Ahead (words ++ rest) → Run (sub .unary) c rest Q)
    (folds : ∀ span out, Q out → P (negated span out))
    (ahead : c.Ahead (fixed .minus :: (words ++ rest))) :
    Run (operand layout limit sub) c rest P := by
  refine (run_currentSpan ahead).bind fun _ c₁ _ ahead => ?_
  refine (run_sees ahead .minus).bind fun signed c₂ seen ahead => ?_
  rw [if_pos (by simpa [fixed] using seen)]
  refine (run_advance ahead).bind fun _ c₃ _ ahead => ?_
  refine (reads c₃ ahead).bind fun out c₄ same ahead => ?_
  refine (run_spanFrom ahead).bind fun span c₅ _ ahead => ?_
  exact .pure (folds span out same) ahead

/-- A negation is read with what is read behind it. -/
theorem run_operand_of_not {words : List Word} {P Q : Expr → Prop}
    (reads : ∀ c, c.Ahead (words ++ rest) → Run (sub .unary) c rest Q)
    (applies : ∀ span out, Q out → P (.unary span .not out))
    (ahead : c.Ahead (fixed .kwNot :: (words ++ rest))) :
    Run (operand layout limit sub) c rest P := by
  refine (run_currentSpan ahead).bind fun _ c₁ _ ahead => ?_
  refine (run_sees ahead .minus).bind fun signed c₂ seen ahead => ?_
  rw [if_neg (by simp [seen, fixed])]
  refine (run_sees ahead .kwNot).bind fun negation c₃ seen ahead => ?_
  rw [if_pos (by simpa [fixed] using seen)]
  refine (run_advance ahead).bind fun _ c₄ _ ahead => ?_
  refine (reads c₄ ahead).bind fun out c₅ same ahead => ?_
  refine (run_spanFrom ahead).bind fun span c₆ _ ahead => ?_
  exact .pure (applies span out same) ahead

end Operands

end Reader
end Surface
end Clausal
