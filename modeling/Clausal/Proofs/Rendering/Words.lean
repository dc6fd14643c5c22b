import Clausal.Core.Render
import Clausal.Proofs.Lowering.Addressing
import Clausal.Proofs.Syntax.Printed
import Clausal.Proofs.Syntax.RoundTrip

/-!
# The words of shown expressions

A shown expression has spaces around its infix operators, behind its commas and before the arrows of its
maps, and nowhere else.  `Word.CutsBefore` says that a text is cut into some words wherever a name or a
number would end behind it, and here are its rules for the forms in which expressions are shown.  A minus
sign is the only word that is not told apart at once: what follows it must not make an arrow of it
(`Word.Cuts.noArrow`).
-/

namespace Clausal

open Token (Kind Ends)
open Surface (Word Spelled)
open Surface.Word (fixed separated Cuts CutsBefore ends_cons)

/-! ## The first character of an operand -/

namespace Token

variable {text : List Char} {kind : Kind} {n : Nat}

/-- No word that begins an operand begins with the second character of an arrow. -/
theorem startsOperand_of_greater {cs : List Char} (taken : kind.length? ('>' :: cs) = some n) :
    Surface.Reader.startsOperand kind = false := by
  have signs : ∀ spelling ∈ Kind.spellings, spelling.2.toList.headD ' ' = '>' →
      Surface.Reader.startsOperand spelling.1 = false := by
    decide
  rcases length?_cons taken with ⟨spelling, member, rfl, ds, letters, -⟩ | ⟨-, same | same⟩ |
    ⟨-, same⟩ | ⟨-, digit⟩ | ⟨-, same⟩ | ⟨-, same⟩ | ⟨-, start⟩
  · exact signs spelling member (by simp [letters])
  · cases same
  · cases same
  · cases same
  · cases digit
  · cases same
  · cases same
  · cases start

end Token

/-! ## Cutting -/

namespace Surface
namespace Word

variable {print more : List Char} {words others : List Word} {kind : Kind}

/-- What begins like an operand makes no arrow of a minus sign before it. -/
theorem Cuts.noArrow (cuts : Cuts print words) (starts : Reader.Starts words) :
    ∀ c ∈ print.head?, c ≠ '>' := by
  cases cuts with
  | nil => nofun
  | space =>
      rintro _ ⟨⟩
      decide
  | word lexes follows =>
      obtain ⟨c, cs, letters, found⟩ := lexes
      obtain ⟨_, ⟨⟩, operand⟩ := starts
      rw [letters]
      rintro _ ⟨⟩ rfl
      obtain ⟨n, won, -⟩ := Token.longest?_of_find (found _ follows)
      rw [Token.startsOperand_of_greater (Token.length?_of_longest? won)] at operand
      cases operand

/-- Two texts stand side by side if the second ends a word of letters and digits before it. -/
theorem CutsBefore.append (first : CutsBefore print words)
    (ends : ∀ text, Ends text → Ends (more ++ text)) (second : CutsBefore more others) :
    CutsBefore (print ++ more) (words ++ others) := by
  intro text rest behind cuts
  rw [List.append_assoc, List.append_assoc]
  exact first _ _ (ends text behind) (second text rest behind cuts)

theorem cutsBefore_word {word : Word} (lexes : word.LexesBefore Ends) :
    CutsBefore word.text.toList [word] :=
  fun _ _ ends cuts => .word lexes ends cuts

theorem cutsBefore_minus (inner : CutsBefore print words) (starts : Reader.Starts words) :
    CutsBefore ('-' :: print) (fixed .minus :: words) := by
  intro text rest ends cuts
  have behind := inner text rest ends cuts
  have lexes : (fixed .minus).LexesBefore fun rest => ∀ c ∈ rest.head?, c ≠ '>' :=
    lexesBefore_spelling (by decide) fun rest => Token.longest?_minus
  exact .word lexes (behind.noArrow (starts.append rest)) behind

/-- A sign with a space behind it stands before a text. -/
theorem cutsBefore_spaced (member : ((fixed kind).kind, (fixed kind).text) ∈ Kind.spellings)
    (inner : CutsBefore print words) :
    CutsBefore ((fixed kind).text.toList ++ ' ' :: print) (fixed kind :: words) := by
  intro text rest ends cuts
  rw [List.append_assoc]
  exact .spaced member (inner text rest ends cuts)

/-- A sign between spaces joins two texts. -/
theorem CutsBefore.joined (member : ((fixed kind).kind, (fixed kind).text) ∈ Kind.spellings)
    (first : CutsBefore print words) (second : CutsBefore more others) :
    CutsBefore (print ++ ' ' :: ((fixed kind).text.toList ++ ' ' :: more))
      (words ++ fixed kind :: others) := by
  refine first.append (fun text _ => ends_cons (by decide) _) fun text rest ends cuts => ?_
  exact .space (cutsBefore_spaced member second text rest ends cuts)

/-- A text in parentheses. -/
theorem CutsBefore.paren (inner : CutsBefore print words) :
    CutsBefore ('(' :: (print ++ [')'])) (fixed .leftParen :: (words ++ [fixed .rightParen])) := by
  intro text rest _ cuts
  have closed : Cuts (')' :: text) (fixed .rightParen :: rest) := @Cuts.sign _ _ .rightParen rfl cuts
  have inside := inner _ _ (ends_cons (by decide) text) closed
  have whole : Cuts ('(' :: (print ++ ')' :: text))
      (fixed .leftParen :: (words ++ fixed .rightParen :: rest)) :=
    @Cuts.sign _ _ .leftParen rfl inside
  simpa using whole

/-- The point before a name does not make a float of a number before it. -/
theorem CutsBefore.field {name : String} (identifier : Token.IsIdentifier name)
    (inner : CutsBefore print words) :
    CutsBefore (print ++ '.' :: name.toList) (words ++ [fixed .dot, .ident name]) := by
  have named : CutsBefore ('.' :: name.toList) [fixed .dot, .ident name] := by
    intro text rest ends cuts
    have behind := cutsBefore_word (lexes_ident identifier) text rest ends cuts
    exact @Cuts.sign _ _ .dot rfl behind
  refine inner.append (fun text _ => ?_) named
  rcases identifier.1 with ⟨first, body, mark, letters, start, -⟩
  rw [letters]
  rintro _ ⟨⟩
  refine ⟨by decide, by decide, fun _ => ?_⟩
  rintro _ ⟨⟩
  exact Token.not_isDigit_of_isNameStart start

/-- A row of arguments behind a text. -/
theorem CutsBefore.call {α : Type} {show_ : α → String} {spell : α → List Word} {args : List α}
    (inner : CutsBefore print words) (each : ∀ a ∈ args, CutsBefore (show_ a).toList (spell a)) :
    CutsBefore (print ++ ("(" ++ ", ".intercalate (args.map show_) ++ ")").toList)
      (words ++ fixed .leftParen :: (separated (args.map spell) ++ [fixed .rightParen])) := by
  have row := @Value.cuts_delimited _ _ _ _ each .leftParen .rightParen rfl rfl "(" ")" rfl rfl
    fun text => ends_cons (by decide) text
  refine inner.append (fun text _ => ?_) row
  rw [String.append_assoc, String.toList_append]
  exact ends_cons (by decide) _

/-- A list with a tail. -/
theorem cutsBefore_listTail {α : Type} {show_ : α → String} {spell : α → List Word} {items : List α}
    (each : ∀ a ∈ items, CutsBefore (show_ a).toList (spell a)) (last : CutsBefore print words) :
    CutsBefore (("[" ++ ", ".intercalate (items.map show_) ++ " | ").toList ++ (print ++ [']']))
      (fixed .leftBracket ::
        (separated (items.map spell) ++ fixed .pipe :: (words ++ [fixed .rightBracket]))) := by
  intro text rest _ cuts
  have closed : Cuts (']' :: text) (fixed .rightBracket :: rest) :=
    @Cuts.sign _ _ .rightBracket rfl cuts
  have tail := last _ _ (ends_cons (by decide) text) closed
  have bar : Cuts ('|' :: ' ' :: (print ++ ']' :: text))
      (fixed .pipe :: (words ++ fixed .rightBracket :: rest)) := @Cuts.spaced _ _ .pipe (by decide) tail
  have row := cuts_row each (ends_cons (by decide) _) (.space bar)
  have whole := @Cuts.sign _ _ .leftBracket rfl row
  have bracket : (fixed .leftBracket).text.toList = ['['] := rfl
  rw [bracket] at whole
  simpa [String.toList_intercalate, Function.comp_def] using whole

/-- A name before a colon is a key. -/
theorem cutsBefore_named {name : String} (identifier : Token.IsIdentifier name)
    (value : CutsBefore print words) :
    CutsBefore (name.toList ++ ':' :: ' ' :: print) (.ident name :: fixed .colon :: words) := by
  have colon : CutsBefore (':' :: ' ' :: print) (fixed .colon :: words) :=
    @cutsBefore_spaced _ _ .colon (by decide) value
  exact (cutsBefore_word (lexes_ident identifier)).append (fun text _ => ends_cons (by decide) _) colon

end Word
end Surface

/-! ## Paths -/

namespace Lowering

open Surface (Expr)

/-- What a call refers to is shown as the path that it is called by. -/
theorem path?_of_lowerCallee {names : Names} {callee : Expr} {target : Core.Callee}
    (resolved : lowerCallee names callee = .ok target) : callee.path? = some target.render := by
  cases callee with
  | ident span name =>
      rw [lowerCallee] at resolved
      split at resolved
      · cases resolved
      · split at resolved
        next builtin found =>
            cases resolved
            have same := List.find?_some found
            rw [Expr.path?, Core.Callee.render, beq_iff_eq.mp same]
        next =>
            cases resolved
            rfl
  | field span target name =>
      rw [lowerCallee] at resolved
      split at resolved
      next path =>
          cases resolved
          have rooted : ∃ root, target.pathRoot? = some root := by
            unfold isModulePath at path
            split at path
            next root found => exact ⟨root, found⟩
            next => cases path
          -- What has a root is a path.
          have whole : ∀ t : Expr, (∃ root, t.pathRoot? = some root) → ∃ text, t.path? = some text := by
            intro t
            fun_induction Expr.pathRoot? t with
            | case1 span name => exact fun _ => ⟨name, rfl⟩
            | case2 span target name ih =>
                intro rooted
                obtain ⟨text, found⟩ := ih rooted
                exact ⟨text ++ "." ++ name, by rw [Expr.path?, found]; rfl⟩
            | case3 =>
                rintro ⟨root, found⟩
                cases found
          obtain ⟨text, found⟩ := whole target rooted
          rw [Expr.path?, found]
          rfl
      · cases resolved
  | _ => cases resolved

/-- A path is cut into its names and the points between them, which are a way to write it. -/
theorem spelled_of_path {t : Expr} {text : String} (path : t.path? = some text)
    (writable : t.Writable) :
    Spelled t t.spell ∧ CutsBefore text.toList t.spell ∧ Word.Unsigned t.spell ∧ t.binding? = none := by
  induction writable generalizing text with
  | @node t root parts ih =>
      cases t with
      | ident span name =>
          cases path
          refine ⟨Expr.spelled_of_isLeaf rfl trivial, ?_, by simp [Expr.spell, Word.Unsigned, Word.ident],
            rfl⟩
          rw [Expr.spell]
          exact Word.cutsBefore_word (Word.lexes_ident root)
      | field span target name =>
          obtain ⟨base, found, rfl⟩ := Option.map_eq_some_iff.mp path
          obtain ⟨spelled, cuts, unsigned, single⟩ := ih target (by simp [Expr.parts]) found
          rw [Expr.spell]
          refine ⟨.field single unsigned spelled, ?_, unsigned.append (by simp [Word.Unsigned, fixed]), rfl⟩
          have whole := cuts.field root
          simpa using whole
      | _ => cases path

end Lowering
end Clausal
