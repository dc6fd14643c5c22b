import Clausal.Proofs.Syntax.Lexing
import Clausal.Proofs.Syntax.Rules

/-!
# The lexemes of a text cover it

Scanning cuts a text into lexemes that stand one behind the other (`Segments`): between them are only
blanks, and behind the last one too, unless that is a quote that is not closed.  Each token is the
longest word that any rule has at its place, and a fault that is no open quote is one character where
no rule has a word (`Stands`).

Main statement: `scan_faithful`.
-/

namespace Clausal

namespace Source

theorem dropBytes?_append (before rest : List Char) :
    dropBytes? (byteLength before) (before ++ rest) = some rest := by
  induction before with
  | nil => rw [byteLength, List.nil_append, dropBytes?]
  | cons c cs ih =>
      have positive := c.utf8Size_pos
      obtain ⟨n, size⟩ : ∃ n, c.utf8Size + byteLength cs = n + 1 :=
        Nat.exists_eq_add_one_of_ne_zero (by omega)
      have left : n + 1 - c.utf8Size = byteLength cs := by omega
      rw [List.cons_append, byteLength, size, dropBytes?, if_pos (by omega), left, ih]

theorem takeBytes?_append (word rest : List Char) :
    takeBytes? (byteLength word) (word ++ rest) = some word := by
  induction word with
  | nil => rw [byteLength, takeBytes?]
  | cons c cs ih =>
      have positive := c.utf8Size_pos
      obtain ⟨n, size⟩ : ∃ n, c.utf8Size + byteLength cs = n + 1 :=
        Nat.exists_eq_add_one_of_ne_zero (by omega)
      have left : n + 1 - c.utf8Size = byteLength cs := by omega
      rw [List.cons_append, byteLength, size, takeBytes?, if_pos (by omega), left, ih]
      rfl

/-- A word of a text is the slice between where it begins and where it ends. -/
theorem slice?_append (before word rest : List Char) :
    slice? (before ++ (word ++ rest)) (byteLength before) (byteLength before + byteLength word) =
      some word := by
  rw [slice?, if_pos (Nat.le_add_right _ _), dropBytes?_append, Option.bind_some,
    Nat.add_sub_cancel_left, takeBytes?_append]

theorem byteLength_pos {text : List Char} (nonempty : text ≠ []) : 0 < byteLength text :=
  Nat.lt_of_lt_of_le (List.length_pos_iff.mpr nonempty) (length_le_byteLength text)

end Source

namespace Token

open Source (byteLength)

/-! ## Where lexemes stand -/

/-- Where a lexeme stands. -/
def Lexeme.span : Lexeme → Span
  | .ok token => token.span
  | .error e => e.span

/-- In front of `rest` a token is the longest word that any rule has, and its kind is settled: only a
keyword is also in another rule, that of identifiers.  A quoted text runs to the quote that closes it. -/
def Longest (token : Token) (rest : List Char) : Prop :=
  if token.kind = .quoted then
    token.text.toList ∈ quotedRule ∧
      ∀ word ∈ quotedRule, word <+: token.text.toList ++ rest → word = token.text.toList
  else
    token.text.toList ∈ token.kind.rule ∧
      (∀ (kind : Kind) (word : List Char), word ∈ kind.rule → word <+: token.text.toList ++ rest →
        word.length ≤ token.text.toList.length) ∧
      ∀ kind : Kind, token.text.toList ∈ kind.rule → kind = token.kind ∨
        kind = .identifier ∧ token.kind.isKeyword = true

/-- A lexeme of a source text, at the place that its span tells. -/
inductive Stands (source : List Char) : Lexeme → Prop
  | token {before rest : List Char} {token : Token}
      (split : source = before ++ (token.text.toList ++ rest))
      (start : token.span.start = byteLength before)
      (stop : token.span.stop = byteLength before + byteLength token.text.toList)
      (longest : token.Longest rest) : Stands source (.ok token)
  /-- A single character where no rule has a word. -/
  | unknown {before rest : List Char} {c : Char} {span : Span}
      (split : source = before ++ c :: rest) (start : span.start = byteLength before)
      (stop : span.stop = byteLength before + c.utf8Size) (solid : isBlank c = false)
      (noRule : ∀ (kind : Kind) (word : List Char), word ∈ kind.rule → ¬ word <+: c :: rest) :
      Stands source (.error (.unknownCharacter span))
  /-- A quote behind which no quoted text is closed. -/
  | unclosed {before rest : List Char} {span : Span}
      (split : source = before ++ '"' :: rest) (start : span.start = byteLength before)
      (some : span.start < span.stop) (inside : span.stop ≤ byteLength source)
      (unclosed : ∀ word ∈ quotedRule, ¬ word <+: '"' :: rest) :
      Stands source (.error (.unterminatedString span))

/-- Behind `before`, the lexemes cut `rest` into words and blanks; an open quote ends them. -/
inductive Segments : (before rest : List Char) → List Lexeme → Prop
  | nil (before : List Char) : Segments before [] []
  | blank {before rest : List Char} {c : Char} {lexemes : List Lexeme} (blank : isBlank c = true)
      (later : Segments (before ++ [c]) rest lexemes) : Segments before (c :: rest) lexemes
  | lexeme {before word rest : List Char} {lexeme : Lexeme} {lexemes : List Lexeme}
      (stands : Stands (before ++ (word ++ rest)) lexeme)
      (start : lexeme.span.start = byteLength before)
      (stop : lexeme.span.stop = byteLength before + byteLength word)
      (closed : ∀ span, lexeme ≠ .error (.unterminatedString span))
      (later : Segments (before ++ word) rest lexemes) :
      Segments before (word ++ rest) (lexeme :: lexemes)
  | unclosed {before rest : List Char} {span : Span}
      (stands : Stands (before ++ rest) (.error (.unterminatedString span)))
      (start : span.start = byteLength before) :
      Segments before rest [.error (.unterminatedString span)]

/-! ## What is found at the start of a text -/

section Found

variable {c : Char} {cs : List Char} {kind : Kind} {n : Nat}

/-- What can be found at the start of a text. -/
theorem find_cases (c : Char) (cs : List Char) :
    isBlank c = true ∧ find c cs = .blank ∨
      isBlank c = false ∧
        (longest? (c :: cs) = none ∧ find c cs = .nothing ∨
          (∃ n, longest? (c :: cs) = some (.quoted, n) ∧
            ((∃ count, closing cs = .found count ∧ find c cs = .token .quoted count) ∨
              ∃ bytes, closing cs = .missing bytes ∧ find c cs = .unclosed bytes)) ∨
          ∃ kind n, kind ≠ .quoted ∧ longest? (c :: cs) = some (kind, n) ∧
            find c cs = .token kind (n - 1)) := by
  cases blank : isBlank c with
  | true => exact .inl ⟨rfl, by simp [find, blank]⟩
  | false =>
      refine .inr ⟨rfl, ?_⟩
      cases won : longest? (c :: cs) with
      | none => exact .inl ⟨rfl, by simp [find, blank, won]⟩
      | some found =>
          obtain ⟨kind, n⟩ := found
          by_cases quoted : kind = .quoted
          · subst quoted
            refine .inr (.inl ⟨n, rfl, ?_⟩)
            cases close : closing cs with
            | found count => exact .inl ⟨count, rfl, by simp [find, blank, won, close]⟩
            | missing bytes => exact .inr ⟨bytes, rfl, by simp [find, blank, won, close]⟩
          · refine .inr (.inr ⟨kind, n, quoted, rfl, ?_⟩)
            simp [find, blank, won]

theorem ne_nil_of_mem_rule {word : List Char} (member : word ∈ kind.rule) : word ≠ [] := by
  rintro rfl
  have taken := length?_word member
  rw [length?_nil] at taken
  cases taken

/-- The rule of quoted texts wins only at a quote. -/
theorem eq_quote (won : longest? (c :: cs) = some (.quoted, n)) : c = '"' := by
  obtain ⟨starts, -⟩ := wordLength?_eq_some_iff.mp (show wordLength? ['"'] (c :: cs) = some n from
    length?_of_longest? won)
  exact (List.cons_prefix_cons.mp starts).1.symm

/-- A quoted text is a quote and a body that ends in a quote. -/
theorem mem_quotedRule {word : List Char} :
    word ∈ quotedRule ↔ ∃ body ∈ quotedBody, word = '"' :: (body ++ ['"']) := by
  constructor
  · rintro ⟨_, ⟨_, rfl, body, inside, rfl⟩, _, rfl, rfl⟩
    exact ⟨body, inside, rfl⟩
  · rintro ⟨body, inside, rfl⟩
    exact ⟨_, ⟨['"'], rfl, body, inside, rfl⟩, ['"'], rfl, rfl⟩

/-- A quoted text begins a text exactly when its end is found behind the first quote. -/
theorem closing_of_starts {word : List Char} (member : word ∈ quotedRule)
    (starts : word <+: '"' :: cs) : closing cs = .found (word.length - 1) := by
  obtain ⟨body, inside, rfl⟩ := mem_quotedRule.mp member
  obtain ⟨rest, split⟩ := starts
  refine closing_eq_found_iff.mpr ⟨body, rest, ?_, by simp, inside⟩
  simpa using split.symm

end Found

/-! ## Scanning -/

section Scanning

variable {before rest : List Char} {lexeme : Lexeme} {lexemes : List Lexeme} {lines : LineTable}

theorem byteLength_snoc (before : List Char) (c : Char) :
    byteLength (before ++ [c]) = byteLength before + c.utf8Size := by
  rw [Source.byteLength_append]
  rfl

/-- A token in front of a text is followed by the lexemes of that text. -/
theorem scanFrom_token {c : Char} {cs : List Char} {kind : Kind} (offset : Nat)
    (found : find c (cs ++ rest) = .token kind cs.length) :
    scanFrom lines 0 offset (c :: (cs ++ rest)) =
      .ok ⟨kind, String.ofList (c :: cs), lines.span offset (offset + byteLength (c :: cs))⟩ ::
        scanFrom lines 0 (offset + byteLength (c :: cs)) rest := by
  simp only [scanFrom, found, List.take_left, Surface.Word.scanFrom_skip, byteLength, Nat.add_assoc]

/-- A quoted text whose end is found is the only one at its place. -/
theorem longest_quoted {body : List Char} (span : Span) (inside : body ∈ quotedBody)
    (rest : List Char) :
    Longest ⟨.quoted, String.ofList ('"' :: (body ++ ['"'])), span⟩ rest := by
  have member : '"' :: (body ++ ['"']) ∈ quotedRule := mem_quotedRule.mpr ⟨body, inside, rfl⟩
  simp only [Longest, if_true, String.toList_ofList]
  refine ⟨member, fun word also starts => ?_⟩
  have own : '"' :: (body ++ ['"']) <+: '"' :: (body ++ ['"'] ++ rest) := List.prefix_append _ rest
  -- Both ends are what the search finds, so the words are equally long.
  have ends := (closing_of_starts also starts).symm.trans (closing_of_starts member own)
  simp only [Closing.found.injEq] at ends
  have nonempty : word ≠ [] := by
    obtain ⟨_, -, rfl⟩ := mem_quotedRule.mp also
    exact List.cons_ne_nil _ _
  have positive := List.length_pos_iff.mpr nonempty
  have length : word.length = ('"' :: (body ++ ['"'])).length := by
    simp only [List.length_cons] at ends ⊢
    omega
  exact (List.prefix_of_prefix_length_le starts own (Nat.le_of_eq length)).eq_of_length length

/-- Scanning what stands behind `before` cuts it into segments. -/
theorem segments_scanFrom (lines : LineTable) (before text : List Char) :
    Segments before text (scanFrom lines 0 (byteLength before) text) := by
  induction size : text.length using Nat.strongRecOn generalizing before text with
  | ind size ih =>
      subst size
      cases text with
      | nil => exact .nil before
      | cons c cs =>
          -- Fixed and quoted tokens are cut off alike; they differ in why no other word is there.
          have token : ∀ kind word rest, cs = word ++ rest → find c cs = .token kind word.length →
              (∀ span, Longest ⟨kind, String.ofList (c :: word), span⟩ rest) →
              Segments before (c :: cs) (scanFrom lines 0 (byteLength before) (c :: cs)) := by
            rintro kind word rest rfl found longest
            have shorter : rest.length < (c :: (word ++ rest)).length := by
              rw [List.length_cons, List.length_append]
              omega
            have later := ih rest.length shorter (before ++ c :: word) rest rfl
            rw [Source.byteLength_append] at later
            rw [scanFrom_token _ found]
            refine @Segments.lexeme before (c :: word) rest _ _ ?_ rfl rfl (by simp) later
            refine .token ?_ rfl ?_ (longest _) <;> simp [LineTable.span]
          rcases find_cases c cs with ⟨blank, found⟩ | ⟨solid, ⟨lost, found⟩ |
            ⟨n, won, ⟨count, close, found⟩ | ⟨bytes, close, found⟩⟩ | ⟨kind, n, plain, won, found⟩⟩
          · have later := ih cs.length (by simp) (before ++ [c]) cs rfl
            rw [byteLength_snoc] at later
            simp only [scanFrom, found]
            exact .blank blank later
          · have later := ih cs.length (by simp) (before ++ [c]) cs rfl
            rw [byteLength_snoc] at later
            simp only [scanFrom, found]
            refine @Segments.lexeme before [c] cs _ _ ?_ rfl rfl (by simp) later
            exact .unknown rfl rfl rfl solid fun kind word => not_prefix_of_longest? lost
          · obtain rfl := eq_quote won
            obtain ⟨body, rest, rfl, rfl, inside⟩ := closing_eq_found_iff.mp close
            refine token .quoted (body ++ ['"']) rest (by simp) (by simpa using found) ?_
            exact fun span => longest_quoted span inside rest
          · -- The span of an open quote ends where the search for the closing one stopped.
            obtain rfl := eq_quote won
            simp only [scanFrom, found]
            refine .unclosed (.unclosed rfl rfl ?_ ?_ fun word member starts => ?_) rfl
            · have positive := Char.utf8Size_pos '"'
              simp only [LineTable.span]
              omega
            · have inside := le_of_missing close (Nat.zero_le _)
              simp only [LineTable.span, Source.byteLength_append, byteLength]
              omega
            · cases close.symm.trans (closing_of_starts member starts)
          · obtain ⟨word, rest, split, rfl, member, most, settled⟩ := longest?_word won
            obtain ⟨d, ds, rfl⟩ := List.exists_cons_of_ne_nil (ne_nil_of_mem_rule member)
            obtain ⟨rfl, rfl⟩ := List.cons.inj split
            refine token kind ds rest rfl found fun span => ?_
            simp only [Longest, plain, if_false, String.toList_ofList]
            exact ⟨member, fun other word member starts => most other word member starts, settled⟩

end Scanning

/-! ## What holds of all segments -/

section Segments

variable {before rest source : List Char} {lexeme : Lexeme} {lexemes : List Lexeme}

theorem Segments.stands (segments : Segments before rest lexemes) :
    ∀ lexeme ∈ lexemes, Stands (before ++ rest) lexeme := by
  induction segments with
  | nil => exact List.forall_mem_nil _
  | blank _ _ ih => simpa using ih
  | lexeme stands _ _ _ _ ih => exact List.forall_mem_cons.mpr ⟨stands, by simpa using ih⟩
  | unclosed stands => exact List.forall_mem_singleton.mpr stands

theorem Segments.le_start (segments : Segments before rest lexemes) :
    ∀ lexeme ∈ lexemes, byteLength before ≤ lexeme.span.start := by
  induction segments with
  | nil => exact List.forall_mem_nil _
  | blank _ _ ih =>
      intro lexeme member
      exact Nat.le_trans (by simp [Source.byteLength_append]) (ih lexeme member)
  | lexeme _ start _ _ _ ih =>
      refine List.forall_mem_cons.mpr ⟨Nat.le_of_eq start.symm, fun lexeme member => ?_⟩
      exact Nat.le_trans (by simp [Source.byteLength_append]) (ih lexeme member)
  | unclosed _ start => exact List.forall_mem_singleton.mpr (Nat.le_of_eq start.symm)

/-- Each lexeme ends before the next one begins. -/
theorem Segments.ordered (segments : Segments before rest lexemes) :
    lexemes.Pairwise fun a b => a.span.stop ≤ b.span.start := by
  induction segments with
  | nil => exact .nil
  | blank _ _ ih => exact ih
  | lexeme _ _ stop _ later ih =>
      refine .cons (fun next member => ?_) ih
      rw [stop, ← Source.byteLength_append]
      exact later.le_start next member
  | unclosed => exact List.pairwise_singleton _ _

/-- Nothing comes behind an open quote. -/
theorem Segments.last (segments : Segments before rest lexemes) {front behind : List Lexeme}
    {span : Span} (split : lexemes = front ++ .error (.unterminatedString span) :: behind) :
    behind = [] := by
  induction segments generalizing front with
  | nil => simp at split
  | blank _ _ ih => exact ih split
  | lexeme _ _ _ closed _ ih =>
      cases front with
      | nil =>
          obtain ⟨same, -⟩ := List.cons.inj split
          exact absurd same (closed span)
      | cons first others => exact ih (List.cons.inj split).2
  | unclosed =>
      cases front with
      | nil => exact (List.cons.inj split).2.symm
      | cons first others => simp at split

/-- Byte `b` of a text belongs to a lexeme, or is a space, a tab or a form feed, or comes behind an open
quote, which is the last lexeme. -/
def Covered (source : List Char) (lexemes : List Lexeme) (b : Nat) : Prop :=
  (∃ lexeme ∈ lexemes, lexeme.span.start ≤ b ∧ b < lexeme.span.stop) ∨
    (∃ before c rest, source = before ++ c :: rest ∧ b = byteLength before ∧
      (c = ' ' ∨ c = '\t' ∨ c = '\x0c')) ∨
    ∃ span, lexemes.getLast? = some (.error (.unterminatedString span)) ∧ span.stop ≤ b

theorem Covered.cons {b : Nat} (covered : Covered source lexemes b) (lexeme : Lexeme) :
    Covered source (lexeme :: lexemes) b := by
  rcases covered with ⟨found, member, inside⟩ | blank | ⟨span, last, behind⟩
  · exact .inl ⟨found, List.mem_cons_of_mem _ member, inside⟩
  · exact .inr (.inl blank)
  · refine .inr (.inr ⟨span, ?_, behind⟩)
    rw [List.getLast?_cons, last]
    rfl

/-- Every byte behind `before` is covered. -/
theorem Segments.covered (segments : Segments before rest lexemes) {b : Nat}
    (behind : byteLength before ≤ b) (inside : b < byteLength (before ++ rest)) :
    Covered (before ++ rest) lexemes b := by
  induction segments with
  | nil before =>
      rw [List.append_nil] at inside
      omega
  | @blank before rest c lexemes blank later ih =>
      have isBlank : c = ' ' ∨ c = '\t' ∨ c = '\x0c' := by
        simpa [isBlank, or_assoc] using blank
      have size : c.utf8Size = 1 := by
        rcases isBlank with rfl | rfl | rfl <;> rfl
      by_cases here : b = byteLength before
      · exact .inr (.inl ⟨before, c, rest, rfl, here, isBlank⟩)
      · have further : byteLength (before ++ [c]) ≤ b := by
          rw [byteLength_snoc]
          omega
        simpa using ih further (by simpa using inside)
  | @lexeme before word rest lexeme lexemes _ start stop _ later ih =>
      -- The lexeme begins where `before` ends, so bytes in front of its end are its own.
      by_cases here : b < lexeme.span.stop
      · exact .inl ⟨lexeme, List.mem_cons_self, by omega, here⟩
      · have further : byteLength (before ++ word) ≤ b := by
          rw [Source.byteLength_append]
          omega
        have covered := ih further (by simpa using inside)
        exact (by simpa using covered : Covered (before ++ (word ++ rest)) lexemes b).cons lexeme
  | @unclosed before rest span _ start =>
      by_cases here : b < span.stop
      · exact .inl ⟨_, List.mem_singleton_self _, Nat.le_trans (Nat.le_of_eq start) behind, here⟩
      · exact .inr (.inr ⟨span, rfl, Nat.le_of_not_lt here⟩)

/-- A lexeme takes at least one byte and stands inside its text. -/
theorem Stands.inside (stands : Stands source lexeme) :
    lexeme.span.start < lexeme.span.stop ∧ lexeme.span.stop ≤ byteLength source := by
  cases stands with
  | @token before rest token split start stop longest =>
      have nonempty : token.text.toList ≠ [] := by
        unfold Longest at longest
        split at longest
        next =>
            obtain ⟨body, -, word⟩ := mem_quotedRule.mp longest.1
            rw [word]
            exact List.cons_ne_nil _ _
        next => exact ne_nil_of_mem_rule longest.1
      have positive := Source.byteLength_pos nonempty
      simp only [Lexeme.span, split, start, stop, Source.byteLength_append]
      omega
  | @unknown before rest c span split start stop =>
      have positive := c.utf8Size_pos
      simp only [Lexeme.span, ParseError.span, split, start, stop, Source.byteLength_append, byteLength]
      omega
  | unclosed _ _ some inside => exact ⟨some, inside⟩

/-- The text of a token is the slice of its span. -/
theorem Stands.slice {token : Token} (stands : Stands source (.ok token)) :
    Source.slice? source token.span.start token.span.stop = some token.text.toList := by
  cases stands with
  | token split start stop =>
      rw [split, start, stop]
      exact Source.slice?_append _ _ _

end Segments

/-! ## The whole text -/

/-- The lexemes of a source text are a faithful segmentation of it. -/
structure Faithful (source : List Char) (lexemes : List Lexeme) : Prop where
  ordered : lexemes.Pairwise fun a b => a.span.stop ≤ b.span.start
  inside : ∀ lexeme ∈ lexemes,
    lexeme.span.start < lexeme.span.stop ∧ lexeme.span.stop ≤ byteLength source
  text : ∀ token, .ok token ∈ lexemes →
    Source.slice? source token.span.start token.span.stop = some token.text.toList
  covered : ∀ b < byteLength source, Covered source lexemes b
  last : ∀ front behind span, lexemes = front ++ .error (.unterminatedString span) :: behind →
    behind = []
  stands : ∀ lexeme ∈ lexemes, Stands source lexeme

/-- Cutting a text into lexemes is faithful: they stand in order inside the text and cover all of it but
blanks and what comes behind an open quote, each token is the longest word that any rule has at its
place, and every other fault is a single character where no rule has a word. -/
theorem scan_faithful (source : List Char) : Faithful source (scan source) := by
  have segments : Segments [] source (scan source) :=
    segments_scanFrom (LineTable.ofText source) [] source
  exact
    { ordered := segments.ordered
      inside := fun lexeme member => (segments.stands lexeme member).inside
      text := fun token member => (segments.stands _ member).slice
      covered := fun _ inside => segments.covered (Nat.zero_le _) inside
      last := fun _ _ _ split => segments.last split
      stands := segments.stands }

end Token
end Clausal
