import Clausal.Proofs.Syntax.Forms

/-!
# Spellings of expressions

A tree can be written with different words: a key of a map stands before a colon or before an arrow, and
a number may have any signs before it, which are folded into it.  `Spelled e words` says that `words`
are a way to write `e`, form by form and without mentioning a reader's steps; parentheses stand where
the levels of the operators ask for them (`Expr.Joined`).

This module has the readers of the single forms: under the proviso that nested readers read back all
spellings with fewer words (`Reader.Recovers`), a form that is neither infix nor postfix is read back
from its words.
-/

namespace Clausal
namespace Surface

open Token (Kind)
open Word (fixed separated forall_mem_separated)
open Cursor (headKind)
open Reader (Starts)

/-! ## The words of a tree -/

/-- Words that do not begin with a sign. -/
def Word.Unsigned (words : List Word) : Prop :=
  headKind words ≠ some .minus ∧ headKind words ≠ some .kwNot

/-- Words that do not begin with a name before a colon. -/
def Word.Unlabelled (words : List Word) : Prop :=
  ∀ word rest, words = word :: rest → word.kind = .identifier → headKind rest ≠ some .colon

/-- An entry of a map with its words: a name before a colon, or any key before an arrow. -/
inductive WrittenEntry where
  | named (span : Span) (name : String) (value : Expr × List Word)
  | keyed (key value : Expr × List Word)

namespace WrittenEntry

def tree : WrittenEntry → Expr × Expr
  | named span name value => (.atom span name, value.1)
  | keyed key value => (key.1, value.1)

def words : WrittenEntry → List Word
  | named _ name value => .ident name :: fixed .colon :: value.2
  | keyed key value => key.2 ++ fixed .fatArrow :: value.2

/-- The trees of an entry that are written out. -/
def parts : WrittenEntry → List (Expr × List Word)
  | named _ _ value => [value]
  | keyed key value => [key, value]

/-- A key before an arrow binds as tightly as keys are read. -/
def Loose : WrittenEntry → Prop
  | named .. => True
  | keyed key _ => key.1.Binds .or

end WrittenEntry

/-- The ways to write a tree. -/
inductive Spelled : Expr → List Word → Prop where
  | leaf {e : Expr} {word : Word}
      (reads : ∀ span, ∃ out, Reader.leaf? ⟨word.kind, word.text, span⟩ = some (.ok out) ∧
        out.erase = e.erase) :
      Spelled e [word]
  | minus {span : Span} {e : Expr} {words : List Word} (single : e.binding? = none)
      (inner : Spelled e words) : Spelled (Reader.negated span e) (fixed .minus :: words)
  | negation {span : Span} {e : Expr} {words : List Word} (single : e.binding? = none)
      (inner : Spelled e words) : Spelled (.unary span .not e) (fixed .kwNot :: words)
  | infixed {e left right : Expr} {kind : Kind} {before after : List Word}
      (form : e.operands? = some (kind, left, right)) (joined : Expr.Joined kind left right)
      (first : Spelled left before) (second : Spelled right after) :
      Spelled e (before ++ fixed kind :: after)
  -- A sign would take the target of a postfix form for itself.
  | field {span : Span} {target : Expr} {words : List Word} {name : String}
      (single : target.binding? = none) (unsigned : Word.Unsigned words)
      (inner : Spelled target words) :
      Spelled (.field span target name) (words ++ [fixed .dot, .ident name])
  | call {span : Span} {callee : Expr} {words : List Word} {args : List (Expr × List Word)}
      (single : callee.binding? = none) (unsigned : Word.Unsigned words)
      (inner : Spelled callee words) (each : ∀ arg ∈ args, Spelled arg.1 arg.2) :
      Spelled (.call span callee (args.map Prod.fst))
        (words ++ fixed .leftParen :: (separated (args.map Prod.snd) ++ [fixed .rightParen]))
  | index {span : Span} {target : Expr} {words : List Word} {args : List (Expr × List Word)}
      (single : target.binding? = none) (unsigned : Word.Unsigned words)
      (inner : Spelled target words) (each : ∀ arg ∈ args, Spelled arg.1 arg.2) :
      Spelled (.index span target (args.map Prod.fst))
        (words ++ fixed .leftBracket :: (separated (args.map Prod.snd) ++ [fixed .rightBracket]))
  | paren {span : Span} {items : List (Expr × List Word)}
      (each : ∀ item ∈ items, Spelled item.1 item.2) :
      Spelled (.paren span (items.map Prod.fst))
        (fixed .leftParen :: (separated (items.map Prod.snd) ++ [fixed .rightParen]))
  | list {span : Span} {items : List (Expr × List Word)}
      (each : ∀ item ∈ items, Spelled item.1 item.2) :
      Spelled (.list span (items.map Prod.fst))
        (fixed .leftBracket :: (separated (items.map Prod.snd) ++ [fixed .rightBracket]))
  | listTail {span : Span} {items : List (Expr × List Word)} {tail : Expr} {words : List Word}
      (nonempty : items ≠ []) (each : ∀ item ∈ items, Spelled item.1 item.2)
      (last : Spelled tail words) :
      Spelled (.listTail span (items.map Prod.fst) tail)
        (fixed .leftBracket ::
          (separated (items.map Prod.snd) ++ fixed .pipe :: (words ++ [fixed .rightBracket])))
  | tuple {span : Span} {items : List (Expr × List Word)}
      (each : ∀ item ∈ items, Spelled item.1 item.2) :
      Spelled (.tuple span (items.map Prod.fst))
        (fixed .leftBrace :: (separated (items.map Prod.snd) ++ [fixed .rightBrace]))
  | map {span : Span} {entries : List WrittenEntry} (loose : ∀ entry ∈ entries, entry.Loose)
      (each : ∀ entry ∈ entries, ∀ part ∈ entry.parts, Spelled part.1 part.2) :
      Spelled (.map span (entries.map WrittenEntry.tree))
        (fixed .percentBrace ::
          (separated (entries.map WrittenEntry.words) ++ [fixed .rightBrace]))

/-! ## How spellings begin -/

namespace Expr

theorem binds_lowest (e : Expr) : e.Binds .lowest := fun _ _ => Nat.zero_le _

/-- A sign is folded in the same way into trees that differ only in their places. -/
theorem erase_negated {e out : Expr} (span span' : Span) (same : out.erase = e.erase) :
    (Reader.negated span out).erase = (Reader.negated span' e).erase := by
  cases out <;> cases e <;> simp_all [Reader.negated, erase]

end Expr

/-- A word that is read as a leaf begins an operand, is no sign, and separates nothing. -/
theorem Reader.leaf?_kind {kind : Kind} {text : String} {span : Span}
    {result : Except ParseError Expr} (reads : Reader.leaf? ⟨kind, text, span⟩ = some result) :
    Reader.startsOperand kind = true ∧ (kind ≠ .minus ∧ kind ≠ .kwNot) ∧
      kind ≠ .newline ∧ kind ≠ .comment := by
  cases kind <;> first | (cases reads; done) | decide

/-- Only the first word tells whether there is a sign. -/
theorem Word.Unsigned.append {words after : List Word} (first : Word.Unsigned words)
    (second : Word.Unsigned after) : Word.Unsigned (words ++ after) := by
  cases words with
  | nil => exact second
  | cons => exact first

/-- What follows the first of several words is the same before a longer rest. -/
theorem Word.Unlabelled.append {words after : List Word} (unlabelled : Word.Unlabelled words)
    (starts : Starts words) (next : headKind after ≠ some .colon) :
    Word.Unlabelled (words ++ after) := by
  obtain ⟨first, others, rfl⟩ := List.exists_cons_of_length_pos starts.length_pos
  rintro _ _ ⟨⟩ name
  cases others with
  | nil => exact next
  | cons second others => exact unlabelled first (second :: others) rfl name

namespace Spelled

variable {e : Expr} {words : List Word}

/-- A tree begins like an operand, however it is written. -/
theorem starts (spelled : Spelled e words) : Starts words := by
  induction spelled with
  | leaf reads =>
      obtain ⟨_, known, -⟩ := reads .synthetic
      exact ⟨_, rfl, (Reader.leaf?_kind known).1⟩
  | minus => exact ⟨.minus, rfl, rfl⟩
  | negation => exact ⟨.kwNot, rfl, rfl⟩
  | infixed _ _ _ _ first => exact first.append _
  | field _ _ _ ih | call _ _ _ _ ih | index _ _ _ _ ih => exact ih.append _
  | paren => exact ⟨.leftParen, rfl, rfl⟩
  | list | listTail => exact ⟨.leftBracket, rfl, rfl⟩
  | tuple => exact ⟨.leftBrace, rfl, rfl⟩
  | map => exact ⟨.percentBrace, rfl, rfl⟩

/-- No tree begins with a name before a colon. -/
theorem unlabelled (spelled : Spelled e words) : Word.Unlabelled words := by
  induction spelled with
  | leaf =>
      rintro word rest ⟨⟩ -
      nofun
  | infixed form _ before _ inside =>
      refine inside.append before.starts ?_
      have operator := Expr.isFixed_operator (Expr.operator_of_operands form).choose_spec
      rintro ⟨⟩
      cases operator
  | field _ _ inner inside => exact inside.append inner.starts (by simp [fixed])
  | call _ _ inner _ inside => exact inside.append inner.starts (by simp [fixed])
  | index _ _ inner _ inside => exact inside.append inner.starts (by simp [fixed])
  | _ =>
      rintro word rest ⟨⟩ ⟨⟩

/-- No word of a tree is a newline or a comment. -/
theorem solid (spelled : Spelled e words) :
    ∀ word ∈ words, word.kind ≠ .newline ∧ word.kind ≠ .comment := by
  induction spelled with
  | leaf reads =>
      obtain ⟨_, known, -⟩ := reads .synthetic
      simpa using (Reader.leaf?_kind known).2.2
  | minus _ _ ih | negation _ _ ih => exact List.forall_mem_cons.mpr ⟨by decide, ih⟩
  | infixed form _ _ _ first second =>
      have operator := (Expr.operator_of_operands form).choose_spec
      have sign : Word.Plain (fixed _) := .fixed (Expr.isFixed_operator operator)
      exact List.forall_mem_append.mpr ⟨first, List.forall_mem_cons.mpr ⟨sign.kind_ne, second⟩⟩
  | field _ _ _ ih =>
      exact List.forall_mem_append.mpr ⟨ih, by simp [fixed, Word.ident]⟩
  | call _ _ _ _ ih row | index _ _ _ _ ih row =>
      simp only [List.forall_mem_append, List.forall_mem_cons]
      exact ⟨ih, by decide, forall_mem_separated (by decide) (List.forall_mem_map.mpr row),
        by decide, List.forall_mem_nil _⟩
  | paren _ row | list _ row | tuple _ row =>
      simp only [List.forall_mem_append, List.forall_mem_cons]
      exact ⟨by decide, forall_mem_separated (by decide) (List.forall_mem_map.mpr row), by decide,
        List.forall_mem_nil _⟩
  | listTail _ _ _ row last =>
      simp only [List.forall_mem_append, List.forall_mem_cons]
      exact ⟨by decide, forall_mem_separated (by decide) (List.forall_mem_map.mpr row), by decide,
        last, by decide, List.forall_mem_nil _⟩
  | map _ _ row =>
      simp only [List.forall_mem_append, List.forall_mem_cons]
      refine ⟨by decide, forall_mem_separated (by decide) ?_, by decide, List.forall_mem_nil _⟩
      refine List.forall_mem_map.mpr fun entry member => ?_
      have inside := row entry member
      cases entry with
      | named span name value =>
          simp only [WrittenEntry.words, List.forall_mem_cons]
          exact ⟨by simp [Word.ident], by decide, inside value (by simp [WrittenEntry.parts])⟩
      | keyed key value =>
          simp only [WrittenEntry.words, List.forall_mem_append, List.forall_mem_cons]
          exact ⟨inside key (by simp [WrittenEntry.parts]), by decide,
            inside value (by simp [WrittenEntry.parts])⟩

end Spelled

/-! ## Reading one form -/

namespace Reader

/-- A reader of nested expressions that reads back the spellings of less than `depth` words. -/
def Recovers (depth : Nat) (sub : Precedence → Reader Expr) : Prop :=
  ∀ (least : Precedence) (e : Expr) (words : List Word) (c : Cursor) (rest : List Word),
    Spelled e words → words.length < depth → e.Binds least → Stops least (headKind rest) →
    c.Ahead (words ++ rest) → Run (sub least) c rest fun out => out.erase = e.erase

section Forms

variable {layout : Layout} {limit depth : Nat} {sub : Precedence → Reader Expr} {c : Cursor}
  {rest : List Word} {items : List (Expr × List Word)}

theorem map_erase_of_forall₂ {trees : List Expr}
    (related : List.Forall₂ (fun out item => out.erase = item.1.erase) trees items) :
    Expr.eraseEach trees = Expr.eraseEach (items.map Prod.fst) := by
  induction related with
  | nil => rfl
  | cons same _ ih => rw [List.map_cons, Expr.eraseEach, Expr.eraseEach, same, ih]

theorem map_eraseEntry_of_forall₂ {trees : List (Expr × Expr)} {entries : List WrittenEntry}
    (related : List.Forall₂ (fun out entry => Expr.eraseEntry out = Expr.eraseEntry entry.tree)
      trees entries) :
    Expr.eraseEntries trees = Expr.eraseEntries (entries.map WrittenEntry.tree) := by
  rw [Expr.eraseEntries_eq_map, Expr.eraseEntries_eq_map]
  induction related with
  | nil => rfl
  | cons same _ ih => rw [List.map_cons, List.map_cons, List.map_cons, same, ih]

theorem Recovers.readsItem (recovers : Recovers depth sub) {item : Expr × List Word}
    (spelled : Spelled item.1 item.2) (short : item.2.length < depth) :
    ReadsItem (sub .lowest) Prod.snd (fun out item => out.erase = item.1.erase) item :=
  fun c after stops ahead =>
    recovers .lowest _ _ c after spelled short item.1.binds_lowest stops ahead

/-- The trees of a row are read back by a reader of trees with as many words as the row. -/
theorem Recovers.readsRow (recovers : Recovers depth sub)
    (each : ∀ item ∈ items, Spelled item.1 item.2)
    (short : (separated (items.map Prod.snd)).length < depth) :
    ∀ item ∈ items,
      ReadsItem (sub .lowest) Prod.snd (fun out item => out.erase = item.1.erase) item := by
  intro item member
  have shorter : item.2.length ≤ (separated (items.map Prod.snd)).length :=
    length_le_separated (List.mem_map_of_mem member)
  exact recovers.readsItem (each item member) (by omega)

/-- An entry of a map reads back, whether its key is written before a colon or before an arrow. -/
theorem Recovers.readsEntry (recovers : Recovers depth sub) {entry : WrittenEntry}
    (loose : entry.Loose) (each : ∀ part ∈ entry.parts, Spelled part.1 part.2)
    (short : entry.words.length < depth) :
    ReadsItem (mapEntry layout sub) WrittenEntry.words
      (fun out entry => Expr.eraseEntry out = Expr.eraseEntry entry.tree) entry := by
  intro c after stops ahead
  cases entry with
  | named span name value =>
      simp only [WrittenEntry.words, List.length_cons] at short
      have spelled := each value (by simp [WrittenEntry.parts])
      have readsValue := fun c ahead => recovers.readsItem spelled (by omega) c after stops ahead
      refine (run_colonEntry readsValue ahead).mono ?_
      rintro ⟨_, out⟩ ⟨⟨span', rfl⟩, same⟩
      simp only [Expr.eraseEntry, WrittenEntry.tree, Expr.erase, same]
  | keyed key value =>
      simp only [WrittenEntry.words, List.length_append, List.length_cons] at short
      simp only [WrittenEntry.words, List.append_assoc, List.cons_append] at ahead
      have spelledKey := each key (by simp [WrittenEntry.parts])
      have spelledValue := each value (by simp [WrittenEntry.parts])
      have noColon : ∀ word words, key.2 = word :: words → word.kind = .identifier →
          headKind (words ++ [fixed .fatArrow]) ≠ some .colon := by
        -- What stands behind a name is the arrow, or a word of the key.
        intro word words shape name
        have inside := spelledKey.unlabelled word words shape name
        cases words with
        | nil => simp [fixed]
        | cons second words => exact inside
      have run : Run (mapEntry layout sub) c after fun out =>
          out.1.erase = key.1.erase ∧ out.2.erase = value.1.erase :=
        run_arrowEntry noColon
          (fun c after stops ahead =>
            recovers .or _ _ c after spelledKey (by omega) loose stops ahead)
          (fun c ahead => recovers.readsItem spelledValue (by omega) c after stops ahead) ahead
      exact run.mono fun out same => Prod.ext same.1 same.2

/-- A signed tree reads back: a minus sign is folded into a number behind it. -/
theorem run_operand_of_signed (recovers : Recovers depth sub) {span : Span} {e : Expr}
    {words : List Word} (single : e.binding? = none) (spelled : Spelled e words)
    (short : words.length < depth) (stops : Stops .unary (headKind rest))
    (ahead : c.Ahead (fixed .minus :: (words ++ rest))) :
    Run (operand layout limit sub) c rest
      fun out => out.erase = (negated span e).erase := by
  have binds : e.Binds .unary := Expr.binds_of_binding?_none single
  have reads := fun c ahead => recovers .unary e words c rest spelled short binds stops ahead
  exact run_operand_of_minus reads (fun _ _ same => Expr.erase_negated _ _ same) ahead

theorem run_operand_of_negation (recovers : Recovers depth sub) {span : Span} {e : Expr}
    {words : List Word} (single : e.binding? = none) (spelled : Spelled e words)
    (short : words.length < depth) (stops : Stops .unary (headKind rest))
    (ahead : c.Ahead (fixed .kwNot :: (words ++ rest))) :
    Run (operand layout limit sub) c rest
      fun out => out.erase = (Expr.unary span .not e).erase := by
  have binds : e.Binds .unary := Expr.binds_of_binding?_none single
  have reads := fun c ahead => recovers .unary e words c rest spelled short binds stops ahead
  refine run_operand_of_not reads (fun _ out same => ?_) ahead
  rw [Expr.erase, Expr.erase, same]

/-- A row between delimiters reads back, inside any form that is erased part by part. -/
theorem run_delimited_of_spelled (recovers : Recovers depth sub) (within : depth ≤ limit)
    {opening closing : Kind} (closes : closesRow closing = true) {start : Token → Nat}
    {form : Span → List Expr → Expr} {e : Expr}
    (erases : ∀ span trees, Expr.eraseEach trees = Expr.eraseEach (items.map Prod.fst) →
      (form span trees).erase = e.erase)
    (each : ∀ item ∈ items, Spelled item.1 item.2)
    (short : (separated (items.map Prod.snd)).length < depth)
    (ahead : c.Ahead
      (fixed opening :: (separated (items.map Prod.snd) ++ fixed closing :: rest))) :
    Run (delimited layout limit sub opening closing start form) c rest
      fun out => out.erase = e.erase := by
  have starts := fun item member => (each item member).starts
  refine (run_delimited closes (recovers.readsRow each short) starts (by omega) ahead).mono ?_
  rintro _ ⟨span, trees, rfl, related⟩
  exact erases span trees (map_erase_of_forall₂ related)

/-- A list reads back, with its tail if it has one. -/
theorem run_operand_of_list (recovers : Recovers depth sub) (within : depth ≤ limit)
    (tail : Option (Expr × List Word)) (nonempty : tail.isSome → items ≠ [])
    (each : ∀ item ∈ items, Spelled item.1 item.2) (last : ∀ item ∈ tail, Spelled item.1 item.2)
    (short : (separated (items.map Prod.snd)).length < depth)
    (shortTail : ∀ item ∈ tail, item.2.length < depth)
    (ahead : c.Ahead (fixed .leftBracket :: (separated (items.map Prod.snd) ++
      (tailWords Prod.snd tail ++ fixed .rightBracket :: rest)))) :
    Run (operand layout limit sub) c rest fun out => ∀ span,
      out.erase = (listOf span (items.map Prod.fst) (tail.map Prod.fst)).erase := by
  have starts := fun item member => (each item member).starts
  have readsTail := fun item member =>
    recovers.readsItem (last item member) (shortTail item member)
  refine run_operand_of_form ahead rfl fun c ahead => ?_
  refine (run_list tail (recovers.readsRow each short) readsTail starts nonempty (by omega)
    ahead).mono ?_
  rintro _ ⟨span', items', _, rfl, related, ending⟩ span
  cases ending with
  | none => simp only [Option.map_none, listOf, Expr.erase, map_erase_of_forall₂ related]
  | some same =>
      simp only [Option.map_some, listOf, Expr.erase, map_erase_of_forall₂ related, same]

/-- A map reads back entry by entry. -/
theorem run_operand_of_map (recovers : Recovers depth sub) (within : depth ≤ limit) {span : Span}
    {entries : List WrittenEntry} (loose : ∀ entry ∈ entries, entry.Loose)
    (each : ∀ entry ∈ entries, ∀ part ∈ entry.parts, Spelled part.1 part.2)
    (short : (separated (entries.map WrittenEntry.words)).length < depth)
    (ahead : c.Ahead (fixed .percentBrace ::
      (separated (entries.map WrittenEntry.words) ++ fixed .rightBrace :: rest))) :
    Run (operand layout limit sub) c rest
      fun out => out.erase = (Expr.map span (entries.map WrittenEntry.tree)).erase := by
  have starts : ∀ entry ∈ entries, Starts entry.words := by
    intro entry member
    cases entry with
    | named span name value => exact ⟨.identifier, rfl, rfl⟩
    | keyed key value =>
        exact (each _ member key (by simp [WrittenEntry.parts])).starts.append _
  have reads : ∀ entry ∈ entries, ReadsItem (mapEntry layout sub) WrittenEntry.words
      (fun out entry => Expr.eraseEntry out = Expr.eraseEntry entry.tree) entry := by
    intro entry member
    have shorter : entry.words.length ≤ (separated (entries.map WrittenEntry.words)).length :=
      length_le_separated (List.mem_map_of_mem member)
    exact recovers.readsEntry (loose entry member) (each entry member) (by omega)
  refine run_operand_of_form ahead rfl fun c ahead => ?_
  refine (run_map reads starts (by omega) ahead).mono ?_
  rintro _ ⟨span', entries', rfl, related⟩
  rw [Expr.erase, Expr.erase, map_eraseEntry_of_forall₂ related]

end Forms

end Reader
end Surface
end Clausal
