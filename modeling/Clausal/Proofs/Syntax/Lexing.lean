import Clausal.Proofs.Syntax.LongestMatch

/-!
# Words with spaces between them

A text made of words and spaces, where each word ends where the next thing begins, is cut into exactly
these words (`Word.Cuts`).  With a space between each two words this is so for all words of a tree whose
names can be written, so a written tree is cut into its words.
-/

namespace Clausal

/-! ## Cutting a text into its words -/

namespace Surface
namespace Word

open Decimal (isDigit)
open Token

/-- The word of a lexeme; a fault has none. -/
def ofLexeme? : Lexeme → Option Word
  | .ok token => some ⟨token.kind, token.text⟩
  | .error _ => none

/-- A word that is found whole wherever the text behind it has a given property. -/
def LexesBefore (follow : List Char → Prop) (word : Word) : Prop :=
  ∃ c cs, word.text.toList = c :: cs ∧
    ∀ rest, follow rest → find c (cs ++ rest) = .token word.kind cs.length

/-- A word that is found whole wherever a space or the end of the text follows it. -/
def Lexes (word : Word) : Prop := word.LexesBefore Apart

theorem LexesBefore.mono {follow narrower : List Char → Prop} {word : Word}
    (lexes : word.LexesBefore follow) (h : ∀ rest, narrower rest → follow rest) :
    word.LexesBefore narrower := by
  obtain ⟨c, cs, letters, found⟩ := lexes
  exact ⟨c, cs, letters, fun rest follows => found rest (h rest follows)⟩

/-- What is not quoted is found by its longest match. -/
theorem find_of_longest? {c : Char} {cs : List Char} {kind : Kind} {n : Nat}
    (blank : isBlank c = false) (plain : kind ≠ .quoted)
    (h : longest? (c :: cs) = some (kind, n + 1)) : find c cs = .token kind n := by
  unfold find
  rw [blank, h]
  cases kind <;> first | rfl | exact absurd rfl plain

theorem LexesBefore.of_longest? {follow : List Char → Prop} {word : Word} {c : Char}
    {cs : List Char} (letters : word.text.toList = c :: cs) (blank : isBlank c = false)
    (plain : word.kind ≠ .quoted)
    (h : ∀ rest, follow rest →
      longest? (word.text.toList ++ rest) = some (word.kind, word.text.toList.length)) :
    word.LexesBefore follow := by
  refine ⟨c, cs, letters, fun rest follows => find_of_longest? blank plain ?_⟩
  rw [← List.cons_append, ← letters, h rest follows, letters, List.length_cons]

theorem isBlank_of_isNameStart {c : Char} (h : isNameStart c = true) : isBlank c = false := by
  cases blank : isBlank c with
  | false => rfl
  | true =>
      simp only [isBlank, Bool.or_eq_true, beq_iff_eq] at blank
      rcases blank with (rfl | rfl) | rfl <;> cases h

theorem isBlank_of_isDigit {c : Char} (h : isDigit c = true) : isBlank c = false := by
  cases blank : isBlank c with
  | false => rfl
  | true =>
      simp only [isBlank, Bool.or_eq_true, beq_iff_eq] at blank
      rcases blank with (rfl | rfl) | rfl <;> cases h

/-- A keyword or sign is found whole where its rule wins. -/
theorem lexesBefore_spelling {follow : List Char → Prop} {word : Word}
    (member : (word.kind, word.text) ∈ Kind.spellings)
    (h : ∀ rest, follow rest →
      longest? (word.text.toList ++ rest) = some (word.kind, word.text.toList.length)) :
    word.LexesBefore follow := by
  obtain ⟨c, cs, letters⟩ := List.exists_cons_of_ne_nil (spelling_shape _ member).1
  have plain : ∀ spelling ∈ Kind.spellings, spelling.1 ≠ .quoted := by decide
  exact .of_longest? letters (spelling_cons member letters).1 (plain _ member) h

theorem lexes_spelling {word : Word} (member : (word.kind, word.text) ∈ Kind.spellings) :
    word.Lexes := by
  refine lexesBefore_spelling member fun rest apart => ?_
  simpa only using longest?_spelling member apart

/-- The kinds with one spelling that stand as words of their own.  A colon only stands in atoms. -/
def isFixed : Kind → Bool
  | .newline | .comment | .integer | .float | .quoted | .atom | .identifier | .colon => false
  | _ => true

theorem lookup_of_isFixed {kind : Kind} (h : isFixed kind = true) :
    Kind.spellings.lookup (fixed kind).kind = some (fixed kind).text := by
  cases kind <;> first | rfl | cases h

theorem lexes_fixed {kind : Kind} (h : isFixed kind = true) : (fixed kind).Lexes :=
  lexes_spelling (mem_spellings_of_lookup (lookup_of_isFixed h))

theorem lexes_ident {name : String} (h : IsIdentifier name) : (ident name).LexesBefore Ends := by
  obtain ⟨first, body, mark, letters, start, -⟩ := h.1
  exact .of_longest? letters (isBlank_of_isNameStart start) (by simp [ident])
    fun rest ends => longest?_identifier h ends

theorem lexes_atom {name : String} (h : IsName name.toList) : (atom name).LexesBefore Ends := by
  have letters : (atom name).text.toList = ':' :: name.toList := by simp [atom]
  refine .of_longest? letters (by decide) (by simp [atom]) fun rest ends => ?_
  rw [letters]
  exact longest?_atom h ends

theorem isDigit_of_mem_repr {n : Nat} {c : Char} (h : c ∈ n.repr.toList) : isDigit c = true := by
  rw [Nat.toList_repr] at h
  have digit := Nat.isDigit_of_mem_toDigits (by decide) (by decide) h
  simpa [Char.isDigit, isDigit, Char.le_def] using digit

/-- A written number begins with a digit. -/
theorem exists_repr_eq_cons (n : Nat) : ∃ c cs, n.repr.toList = c :: cs ∧ isDigit c = true := by
  have nonempty : n.repr.toList ≠ [] := by
    rw [Nat.toList_repr]
    exact Nat.toDigits_ne_nil
  obtain ⟨c, cs, letters⟩ := List.exists_cons_of_ne_nil nonempty
  exact ⟨c, cs, letters, isDigit_of_mem_repr (by rw [letters]; exact List.mem_cons_self)⟩

theorem lexes_integer (n : Nat) : (integer n).LexesBefore Ends := by
  obtain ⟨c, cs, letters, digit⟩ := exists_repr_eq_cons n
  refine .of_longest? letters (isBlank_of_isDigit digit) (by simp [integer]) fun rest ends => ?_
  exact longest?_digits (by simp [integer, letters]) (fun c member => isDigit_of_mem_repr member) ends

/-- A quoted text is found whatever follows it. -/
theorem lexes_quoted (text : String) : (quoted text).LexesBefore fun _ => True := by
  refine ⟨'"', text.toList.flatMap escape ++ ['"'], by simp [quoted], fun rest _ => ?_⟩
  have quote : isBlank '"' = false := by decide
  simp [find, quote, longest?_quote, closing_escaped, quoted]

/-- The words that trees are made of. -/
inductive Plain : Word → Prop where
  | fixed {kind : Kind} : isFixed kind = true → Plain (fixed kind)
  | integer (n : Nat) : Plain (integer n)
  | quoted (text : String) : Plain (quoted text)
  | atom {name : String} : IsName name.toList → Plain (atom name)
  | ident {name : String} : IsIdentifier name → Plain (ident name)

theorem Plain.lexes {word : Word} (plain : word.Plain) : word.Lexes := by
  cases plain with
  | fixed known => exact lexes_fixed known
  | integer n => exact (lexes_integer n).mono fun _ => Apart.ends
  | quoted text => exact (lexes_quoted text).mono fun _ _ => trivial
  | atom name => exact (lexes_atom name).mono fun _ => Apart.ends
  | ident name => exact (lexes_ident name).mono fun _ => Apart.ends

theorem Plain.kind_ne {word : Word} (plain : word.Plain) :
    word.kind ≠ .newline ∧ word.kind ≠ .comment := by
  cases plain with
  | @fixed kind known =>
      refine ⟨?_, ?_⟩ <;> (rintro (rfl : kind = _); cases known)
  | integer n => exact ⟨nofun, nofun⟩
  | quoted text => exact ⟨nofun, nofun⟩
  | atom name => exact ⟨nofun, nofun⟩
  | ident name => exact ⟨nofun, nofun⟩

/-- The rest of a token is passed over. -/
theorem scanFrom_skip (lines : LineTable) (cs rest : List Char) (offset : Nat) :
    scanFrom lines cs.length offset (cs ++ rest) =
      scanFrom lines 0 (offset + Source.byteLength cs) rest := by
  induction cs generalizing offset with
  | nil => rfl
  | cons c cs ih =>
      rw [List.length_cons, List.cons_append, scanFrom, ih, Source.byteLength, Nat.add_assoc]

/-- A word at the start of a text is the first lexeme. -/
theorem scanFrom_word (lines : LineTable) {follow : List Char → Prop} {word : Word}
    (lexes : word.LexesBefore follow) {rest : List Char} (follows : follow rest) (offset : Nat) :
    ∃ next, (scanFrom lines 0 offset (word.text.toList ++ rest)).map ofLexeme? =
      some word :: (scanFrom lines 0 next rest).map ofLexeme? := by
  obtain ⟨c, cs, letters, found⟩ := lexes
  refine ⟨offset + c.utf8Size + Source.byteLength cs, ?_⟩
  rw [letters, List.cons_append, scanFrom, found rest follows]
  simp only [List.take_left, scanFrom_skip, List.map_cons, ofLexeme?, ← letters,
    String.ofList_toList]

/-- A text that consists of words and spaces, where each word ends where the next thing begins. -/
inductive Cuts : List Char → List Word → Prop where
  | nil : Cuts [] []
  | space {text : List Char} {words : List Word} : Cuts text words → Cuts (' ' :: text) words
  | word {follow : List Char → Prop} {word : Word} {text : List Char} {words : List Word} :
      word.LexesBefore follow → follow text → Cuts text words →
      Cuts (word.text.toList ++ text) (word :: words)

/-- A text has exactly the lexemes that it is cut into. -/
theorem Cuts.scanFrom (lines : LineTable) {text : List Char} {words : List Word}
    (cuts : Cuts text words) (offset : Nat) :
    (Token.scanFrom lines 0 offset text).map ofLexeme? = words.map some := by
  induction cuts generalizing offset with
  | nil => rfl
  | @space text words _ ih =>
      -- A space gives no lexeme.
      have blank : Token.scanFrom lines 0 offset (' ' :: text) =
          Token.scanFrom lines 0 (offset + 1) text := rfl
      rw [blank, ih]
  | word lexes follows _ ih =>
      obtain ⟨next, cut⟩ := scanFrom_word lines lexes follows offset
      rw [cut, ih, List.map_cons]

/-- Words with a space between each two are cut apart at the spaces. -/
theorem cuts_spaced (words : List Word) (lexes : ∀ word ∈ words, word.Lexes) :
    Cuts (List.intercalate [' '] (words.map (·.text.toList))) words := by
  induction words with
  | nil => exact .nil
  | cons word words ih =>
      obtain ⟨first, others⟩ := List.forall_mem_cons.mp lexes
      cases words with
      | nil => simpa using Cuts.word first Apart.nil .nil
      | cons second words => simpa using Cuts.word first (Apart.space _) (.space (ih others))

/-- The words of rows between commas are commas and the words of the rows. -/
theorem forall_mem_separated {P : Word → Prop} {rows : List (List Word)} (comma : P (fixed .comma))
    (h : ∀ row ∈ rows, ∀ word ∈ row, P word) : ∀ word ∈ separated rows, P word := by
  induction rows with
  | nil => nofun
  | cons row rows ih =>
      have first := h row List.mem_cons_self
      have others := ih fun row member => h row (List.mem_cons_of_mem _ member)
      cases rows with
      | nil => simpa [separated] using first
      | cons second rows =>
          rw [separated, List.intercalate_cons_cons, List.forall_mem_append, List.forall_mem_append]
          exact ⟨⟨first, by simpa using comma⟩, others⟩

end Word

namespace Expr

open Token (Kind)
open Word (fixed Plain forall_mem_separated)

theorem isFixed_operator {kind : Kind} {binding : Precedence × Associativity}
    (h : binding ∈ kind.operator?) : Word.isFixed kind = true := by
  cases kind <;> first | rfl | cases h

theorem plain_of_mem_row {items : List Expr} (h : ∀ e ∈ items, ∀ word ∈ e.spell, word.Plain) :
    ∀ word ∈ Word.separated (spellEach items), word.Plain := by
  refine forall_mem_separated (.fixed rfl) ?_
  rw [spellEach_eq_map]
  exact List.forall_mem_map.mpr h

/-- Every word of a tree with proper names is a plain word. -/
theorem plain_of_mem_spell {e : Expr} (writable : e.Writable) : ∀ word ∈ e.spell, word.Plain := by
  induction writable with
  | @node e root _ ih =>
      -- A form with two operands has its operator between them; every other form has words of its own.
      rcases form : e.operands? with _ | ⟨kind, left, right⟩
      · cases e with
        | integer _ n =>
            rw [spell]
            split
            · simpa using And.intro (Plain.fixed rfl) (Plain.integer n.natAbs)
            · simpa using Plain.integer n.natAbs
        | text _ s => simpa [spell] using Plain.quoted s
        | atom _ name => simpa [spell] using Plain.atom root
        | bool _ b => cases b <;> simpa [spell] using Plain.fixed rfl
        | nil => simpa [spell] using Plain.fixed rfl
        | ident _ name => simpa [spell] using Plain.ident root
        | unary _ op e =>
            rw [spell, List.forall_mem_cons]
            refine ⟨?_, ih e (by simp [parts])⟩
            cases op <;> exact .fixed rfl
        | binary | clause | guarded | defaulted => cases form
        | call _ callee args | index _ callee args =>
            obtain ⟨target, items⟩ := List.forall_mem_cons.mp ih
            simp only [spell, List.forall_mem_append, List.forall_mem_cons]
            exact ⟨target, .fixed rfl, plain_of_mem_row items, .fixed rfl,
              List.forall_mem_nil _⟩
        | field _ target name =>
            simp only [spell, List.forall_mem_append, List.forall_mem_cons]
            exact ⟨ih target (by simp [parts]), .fixed rfl, .ident root,
              List.forall_mem_nil _⟩
        | listTail _ items tail =>
            obtain ⟨items, tail⟩ := List.forall_mem_append.mp ih
            simp only [spell, List.forall_mem_append, List.forall_mem_cons]
            exact ⟨.fixed rfl, plain_of_mem_row items, .fixed rfl,
              tail _ List.mem_cons_self, .fixed rfl, List.forall_mem_nil _⟩
        | paren _ items | list _ items | tuple _ items =>
            simp only [spell, List.forall_mem_append, List.forall_mem_cons]
            exact ⟨.fixed rfl, plain_of_mem_row ih, .fixed rfl, List.forall_mem_nil _⟩
        | map span entries =>
            have entry : ∀ entry ∈ entries, (∀ word ∈ entry.1.spell, word.Plain) ∧
                ∀ word ∈ entry.2.spell, word.Plain := by
              intro entry member
              have inside : ∀ part ∈ [entry.1, entry.2], part ∈ (Expr.map span entries).parts :=
                fun part here => List.mem_flatMap.mpr ⟨entry, member, here⟩
              exact ⟨ih _ (inside _ (by simp)), ih _ (inside _ (by simp))⟩
            simp only [spell, List.forall_mem_append, List.forall_mem_cons]
            refine ⟨.fixed rfl, ?_, .fixed rfl, List.forall_mem_nil _⟩
            refine forall_mem_separated (.fixed rfl) ?_
            rw [spellEntries_eq_map]
            refine List.forall_mem_map.mpr fun row member => ?_
            simp only [spellEntry, List.forall_mem_append, List.forall_mem_cons]
            exact ⟨(entry row member).1, .fixed rfl, (entry row member).2⟩
        | float | cond => simp [spell]
      · obtain ⟨binding, operator⟩ := operator_of_operands form
        rw [parts_of_operands form] at ih
        simp only [spell_of_operands form, List.forall_mem_append, List.forall_mem_cons]
        exact ⟨ih left (by simp), .fixed (isFixed_operator operator), ih right (by simp)⟩

/-- A written tree is cut into its words. -/
theorem scan_written {e : Expr} (writable : e.Writable) :
    (Token.scan e.written).map Word.ofLexeme? = e.spell.map some :=
  (Word.cuts_spaced e.spell fun word member =>
    (plain_of_mem_spell writable word member).lexes).scanFrom _ 0

end Expr
end Surface
end Clausal
