import Clausal.Value.Display
import Clausal.Proofs.Syntax.Lexing

/-!
# The words of printed values

A printed value is cut into the words of its constant, although it has few spaces: numbers, names and
atoms are ended by the comma, bracket or colon behind them, brackets and quoted texts by themselves, and
the minus sign of a number by its digits.

* `Value.Readable` are the values that have a constant: no floats, records and references, atoms and
  texts that can be written, and maps whose keys differ and are not taken for keywords.
* `Value.words` are the words of the constant.  An atom that is a key is written as a name and a colon.

Main statement: `Value.scan_render`.
-/

namespace Clausal

open Token (Kind Ends Apart)
open Surface (Word)
open Surface.Word (fixed separated Cuts)

/-- A name that is not the spelling of a keyword. -/
def Token.NoKeyword (name : String) : Prop :=
  ∀ spelling ∈ Kind.spellings, spelling.1.isKeyword = true → spelling.2 ≠ name

namespace Value

/-! ## Values with a constant -/

/-- A text that is quoted without writing any character by its code point. -/
def PlainText (s : String) : Prop := ∀ c ∈ s.toList, ¬ ['\\', 'u'] <+: Text.quoteChar c

instance (s : String) : Decidable (PlainText s) :=
  decidable_of_iff ((s.toList.all fun c => !List.isPrefixOf ['\\', 'u'] (Text.quoteChar c)) = true) (by
    simp only [PlainText, List.all_eq_true, Bool.not_eq_true', ← List.isPrefixOf_iff_prefix,
      Bool.not_eq_true])

/-- The values that are printed as constants. -/
inductive Readable : Value → Prop where
  | int {n : Int} : inRange n = true → n ≠ minInt → Readable (.int n)
  | bool (b : Bool) : Readable (.bool b)
  | nil : Readable .nil
  | atom {name : String} : Token.IsName name.toList → Readable (.atom name)
  | text {s : String} : PlainText s → Readable (.text s)
  | list {items : List Value} : (∀ item ∈ items, Readable item) → Readable (.list items)
  | tuple {items : List Value} : (∀ item ∈ items, Readable item) → Readable (.tuple items)
  | map {entries : List (Value × Value)} : (∀ entry ∈ entries, Readable entry.1) →
      (∀ entry ∈ entries, Readable entry.2) →
      entries.Pairwise (fun a b => same a.1 b.1 = false) →
      (∀ entry ∈ entries, ∀ name, entry.1 = .atom name → Token.NoKeyword name) →
      Readable (.map entries)

/-! ## Words -/

mutual

/-- The words of a printed value.  Only values with a constant have words. -/
def words : Value → List Word
  | int (.ofNat n) => [.integer n]
  | int (.negSucc n) => [fixed .minus, .integer (n + 1)]
  | bool b => [fixed (if b then .kwTrue else .kwFalse)]
  | text s => [.quoted s]
  | atom name => [.atom name]
  | nil => [fixed .kwNil]
  | list items => fixed .leftBracket :: (separated (wordsEach items) ++ [fixed .rightBracket])
  | tuple items => fixed .leftBrace :: (separated (wordsEach items) ++ [fixed .rightBrace])
  | map entries => fixed .percentBrace :: (separated (wordsEntries entries) ++ [fixed .rightBrace])
  | _ => []

def wordsEach : List Value → List (List Word)
  | [] => []
  | v :: vs => words v :: wordsEach vs

def wordsEntries : List (Value × Value) → List (List Word)
  | [] => []
  | (atom name, v) :: rest => (.ident name :: fixed .colon :: words v) :: wordsEntries rest
  | (k, v) :: rest => (words k ++ fixed .fatArrow :: words v) :: wordsEntries rest

end

/-- The words of an entry of a map. -/
def entryWords : Value × Value → List Word
  | (atom name, v) => .ident name :: fixed .colon :: words v
  | (k, v) => words k ++ fixed .fatArrow :: words v

/-- The text of an entry of a map. -/
def renderEntry : Value × Value → String
  | (atom name, v) => name ++ ": " ++ render v
  | (k, v) => render k ++ " => " ++ render v

theorem wordsEach_eq_map (items : List Value) : wordsEach items = items.map words := by
  induction items with
  | nil => rfl
  | cons v vs ih => rw [wordsEach, ih, List.map_cons]

theorem renderItems_eq_map (items : List Value) : renderItems items = items.map render := by
  induction items with
  | nil => rfl
  | cons v vs ih => rw [renderItems, ih, List.map_cons]

/-- An entry either has an atom for a key, or its key is written like any other value. -/
theorem entry_cases (entry : Value × Value) :
    (∃ name v, entry = (.atom name, v)) ∨
      (∀ name, entry.1 ≠ .atom name) ∧
        entryWords entry = entry.1.words ++ fixed .fatArrow :: entry.2.words ∧
        renderEntry entry = entry.1.render ++ " => " ++ entry.2.render := by
  rcases entry with ⟨k, v⟩
  cases k with
  | atom name => exact .inl ⟨name, v, rfl⟩
  | _ => exact .inr ⟨nofun, rfl, rfl⟩

theorem wordsEntries_eq_map (entries : List (Value × Value)) :
    wordsEntries entries = entries.map entryWords := by
  induction entries with
  | nil => rfl
  | cons entry rest ih =>
      rcases entry with ⟨k, v⟩
      cases k <;> simp only [wordsEntries, entryWords, ih, List.map_cons]

theorem renderEntries_eq_map (entries : List (Value × Value)) :
    renderEntries entries = entries.map renderEntry := by
  induction entries with
  | nil => rfl
  | cons entry rest ih =>
      rcases entry with ⟨k, v⟩
      cases k <;> simp only [renderEntries, renderEntry, ih, List.map_cons]

end Value

/-! ## Names and texts -/

namespace Token

/-- A name that is no keyword is an identifier, as no sign is a name. -/
theorem isIdentifier_of_noKeyword {name : String} (isName : IsName name.toList)
    (fresh : NoKeyword name) : IsIdentifier name := by
  have signs : ∀ spelling ∈ Kind.spellings, spelling.1.isKeyword = false →
      isNameStart (spelling.2.toList.headD ' ') = false := by
    decide
  refine ⟨isName, fun spelling member same => ?_⟩
  cases keyword : spelling.1.isKeyword with
  | true => exact fresh spelling member keyword same
  | false =>
      have sign := signs spelling member keyword
      rcases isName with ⟨first, body, mark, letters, start, -⟩
      rw [same, letters, List.headD_cons, start] at sign
      cases sign

/-- A character that is not written by its code point is quoted as texts in a source are. -/
theorem quoteChar_eq_escape {c : Char} (plain : ¬ ['\\', 'u'] <+: Text.quoteChar c) :
    Text.quoteChar c = escape c := by
  unfold Text.quoteChar at plain ⊢
  split at plain
  case h_7 quote backslash newline tab return_ null =>
      split at plain
      next => simp at plain
      next printable =>
        simp only [if_neg printable]
        rw [escape]
        all_goals assumption
  all_goals rfl

theorem quoted_eq {s : String} (plain : Value.PlainText s) : Text.quoted s = (Word.quoted s).text := by
  have each : s.toList.map Text.quoteChar = s.toList.map escape :=
    List.map_congr_left fun c member => quoteChar_eq_escape (plain c member)
  simp [Text.quoted, Word.quoted, List.flatMap_def, each]

end Token

/-! ## Cutting -/

namespace Surface
namespace Word

open Token

/-- A character that ends words of letters and digits. -/
theorem ends_cons {c : Char} (outside : isNameChar c = false ∧ isNameMark c = false ∧ c ≠ '.')
    (text : List Char) : Ends (c :: text) := by
  rintro _ ⟨⟩
  exact ⟨outside.1, outside.2.1, fun point => absurd point outside.2.2⟩

/-- A text that is cut into some words wherever a word of letters and digits would end behind it. -/
def CutsBefore (print : List Char) (words : List Word) : Prop :=
  ∀ text others, Ends text → Cuts text others → Cuts (print ++ text) (words ++ others)

section Cutting

variable {text : List Char} {words : List Word} {kind : Kind}

theorem cutsBefore_keyword (keyword : kind.isKeyword = true) {spelling : String}
    (spelled : (fixed kind).text = spelling) : CutsBefore spelling.toList [fixed kind] := by
  have known : isFixed kind = true := by cases kind <;> first | rfl | cases keyword
  have member := mem_spellings_of_lookup (lookup_of_isFixed known)
  have name : isNameStart ((fixed kind).text.toList.headD ' ') = true := by
    cases kind <;> first | decide | cases keyword
  have lexes : (fixed kind).LexesBefore Ends := by
    refine lexesBefore_spelling member fun rest ends => ?_
    simpa only using longest?_keyword member name ends
  intro text words ends cuts
  exact spelled ▸ .word lexes ends cuts

/-- A delimiter is cut off whatever follows. -/
theorem Cuts.sign (closed : isClosedSign kind = true) (cuts : Cuts text words) :
    Cuts ((fixed kind).text.toList ++ text) (fixed kind :: words) := by
  have known : isFixed kind = true := by cases kind <;> first | rfl | cases closed
  have member := mem_spellings_of_lookup (lookup_of_isFixed known)
  have lexes : (fixed kind).LexesBefore fun _ => True := by
    refine lexesBefore_spelling member fun rest _ => ?_
    simpa only using longest?_closedSign member closed
  exact .word lexes trivial cuts

/-- A sign with a space behind it is cut off before the space. -/
theorem Cuts.spaced (member : ((fixed kind).kind, (fixed kind).text) ∈ Kind.spellings)
    (cuts : Cuts text words) :
    Cuts ((fixed kind).text.toList ++ ' ' :: text) (fixed kind :: words) :=
  .word (lexes_spelling member) (Apart.space text) (.space cuts)

/-- Things between commas are cut apart if each of them is cut off before a comma. -/
theorem cuts_row {α : Type} {print : α → List Char} {spell : α → List Word} {items : List α}
    (each : ∀ a ∈ items, CutsBefore (print a) (spell a)) (ends : Ends text)
    (cuts : Cuts text words) :
    Cuts (List.intercalate [',', ' '] (items.map print) ++ text)
      (separated (items.map spell) ++ words) := by
  induction items with
  | nil => exact cuts
  | cons a items ih =>
      obtain ⟨first, others⟩ := List.forall_mem_cons.mp each
      cases items with
      | nil => simpa [separated] using first text words ends cuts
      | cons second items =>
          -- The comma ends the first thing, and the space behind it ends the comma.
          have later := @Cuts.spaced _ _ .comma (by decide) (ih others)
          have comma : (fixed .comma).text.toList = [','] := rfl
          rw [comma, List.singleton_append] at later
          simpa [separated] using first _ _ (ends_cons (by decide) _) later

end Cutting

end Word
end Surface

namespace Value

open Surface.Word (CutsBefore cutsBefore_keyword ends_cons cuts_row lexes_integer lexes_atom
  lexes_ident lexes_quoted lexesBefore_spelling exists_repr_eq_cons)

/-- The minus sign of a number is cut off before its digits. -/
theorem cuts_minus (n : Nat) {text : List Char} {words : List Word}
    (cuts : Cuts ((Word.integer n).text.toList ++ text) words) :
    Cuts ((fixed .minus).text.toList ++ ((Word.integer n).text.toList ++ text))
      (fixed .minus :: words) := by
  have lexes : (fixed .minus).LexesBefore fun rest => ∀ c ∈ rest.head?, c ≠ '>' :=
    lexesBefore_spelling (by decide) fun rest => Token.longest?_minus
  have digits : ∀ c ∈ ((Word.integer n).text.toList ++ text).head?, c ≠ '>' := by
    rcases exists_repr_eq_cons n with ⟨d, ds, shape, digit⟩
    rw [Word.integer, shape]
    rintro _ ⟨⟩ rfl
    cases digit
  exact .word lexes digits cuts

theorem cuts_int (n : Int) : CutsBefore (int n).render.toList (int n).words := by
  intro text words ends cuts
  have digits : ∀ m : Nat, Cuts ((Word.integer m).text.toList ++ text) (.integer m :: words) :=
    fun m => .word (lexes_integer m) ends cuts
  cases n with
  | ofNat m => exact digits m
  | negSucc m =>
      have shape : (int (.negSucc m)).render = (fixed .minus).text ++ (Word.integer (m + 1)).text := rfl
      rw [shape, String.toList_append, List.append_assoc]
      exact cuts_minus (m + 1) (digits (m + 1))

/-- A row of printed things between delimiters is cut into their words and the delimiters. -/
theorem cuts_delimited {α : Type} {print : α → String} {spell : α → List Word} {items : List α}
    (each : ∀ a ∈ items, CutsBefore (print a).toList (spell a)) {opening closing : Kind}
    (opens : Token.isClosedSign opening = true) (closes : Token.isClosedSign closing = true)
    {left right : String} (spelledLeft : (fixed opening).text = left)
    (spelledRight : (fixed closing).text = right) (ends : ∀ text, Ends (right.toList ++ text)) :
    CutsBefore (left ++ ", ".intercalate (items.map print) ++ right).toList
      (fixed opening :: (separated (items.map spell) ++ [fixed closing])) := by
  subst spelledLeft spelledRight
  -- The closing sign ends the last item, so nothing is asked of what follows the row.
  intro text words _ cuts
  have row := cuts_row each (ends text) (.sign closes cuts)
  have whole := Cuts.sign opens row
  simpa [String.toList_intercalate, Function.comp_def] using whole

/-- An entry is cut into its words; the colon or the arrow ends its key. -/
theorem cuts_entry {entry : Value × Value} (key : CutsBefore entry.1.render.toList entry.1.words)
    (value : CutsBefore entry.2.render.toList entry.2.words)
    (name : ∀ name, entry.1 = .atom name → Token.IsIdentifier name) :
    CutsBefore (renderEntry entry).toList (entryWords entry) := by
  intro text words ends cuts
  have behind := value text words ends cuts
  rcases entry_cases entry with ⟨name', v, rfl⟩ | ⟨-, shape, print⟩
  · have colon := @Cuts.spaced _ _ .colon (by decide) behind
    have ended : (fixed .colon).text.toList = [':'] := rfl
    rw [ended, List.singleton_append] at colon
    have whole := Cuts.word (lexes_ident (name name' rfl)) (ends_cons (by decide) _) colon
    simpa [renderEntry, entryWords, Word.ident] using whole
  · have arrow := @Cuts.spaced _ _ .fatArrow (by decide) behind
    have ended : (fixed .fatArrow).text.toList = ['=', '>'] := rfl
    rw [ended, List.cons_append, List.singleton_append] at arrow
    have whole := key _ _ (ends_cons (by decide) _) (.space arrow)
    rw [shape, print]
    simpa using whole

/-- A printed value is cut into its words. -/
theorem cuts_render {v : Value} (readable : v.Readable) : CutsBefore v.render.toList v.words := by
  induction readable with
  | @int n _ _ => exact cuts_int n
  | bool b =>
      cases b with
      | true => exact @cutsBefore_keyword .kwTrue rfl "true" rfl
      | false => exact @cutsBefore_keyword .kwFalse rfl "false" rfl
  | nil => exact @cutsBefore_keyword .kwNil rfl "nil" rfl
  | @atom name isName =>
      intro text words ends cuts
      simpa [render, Value.words, Word.atom] using Cuts.word (lexes_atom isName) ends cuts
  | @text s plain =>
      -- The last quote ends a text, so anything may follow.
      intro text words _ cuts
      rw [render, Token.quoted_eq plain]
      exact .word (lexes_quoted s) trivial cuts
  | list _ ih =>
      rw [render, Value.words, renderItems_eq_map, wordsEach_eq_map]
      exact cuts_delimited ih rfl rfl rfl rfl fun text => ends_cons (by decide) text
  | tuple _ ih =>
      rw [render, Value.words, renderItems_eq_map, wordsEach_eq_map]
      exact cuts_delimited ih rfl rfl rfl rfl fun text => ends_cons (by decide) text
  | map keys _ _ names keysCut valuesCut =>
      rw [render, Value.words, renderEntries_eq_map, wordsEntries_eq_map]
      refine cuts_delimited ?_ rfl rfl rfl rfl fun text => ends_cons (by decide) text
      intro entry member
      refine cuts_entry (keysCut entry member) (valuesCut entry member) fun name isAtom => ?_
      have key := keys entry member
      rw [isAtom] at key
      cases key with
      | atom isName => exact Token.isIdentifier_of_noKeyword isName (names entry member name isAtom)

/-- The text of a value has exactly its words. -/
theorem scan_render {v : Value} (readable : v.Readable) :
    (Token.scan v.render.toList).map Word.ofLexeme? = v.words.map some := by
  have cuts := cuts_render readable [] [] nofun .nil
  rw [List.append_nil, List.append_nil] at cuts
  exact cuts.scanFrom _ 0

end Value

end Clausal
