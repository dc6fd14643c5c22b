import Mathlib.Computability.Language
import Clausal.Proofs.Syntax.Names

/-!
# Token rules as languages

The rule of a kind of token is a language (`Kind.rule`), written with union, concatenation and
repetition as a lexical grammar is.  A rule function takes the longest word of its language at the
start of each text and nothing where there is none (`Takes`), so the longest match of all rule
functions is the longest word of all languages (`longest?_word`).  Two rules share words only where
a keyword is also a name, and there the keyword wins.
-/

namespace Clausal
namespace Token

open Computability
open Decimal (isDigit)

/-! ## The languages -/

/-- The words of one character of a class. -/
def oneOf (p : Char → Bool) : Language Char := {word | ∃ c, p c = true ∧ word = [c]}

/-- The language of a single word. -/
def spelled (word : String) : Language Char := {word.toList}

def digitsRule : Language Char := oneOf isDigit * (oneOf isDigit)∗

/-- Digits behind the first one of a number, each of them possibly behind one underscore. -/
def furtherDigits : Language Char := (oneOf isDigit + spelled "_" * oneOf isDigit)∗

def integerRule : Language Char := oneOf isDigit * furtherDigits

def isExponentMark (c : Char) : Bool := c == 'e' || c == 'E'

def isSign (c : Char) : Bool := c == '+' || c == '-'

def exponentRule : Language Char := oneOf isExponentMark * (1 + oneOf isSign) * digitsRule

def floatRule : Language Char := integerRule * spelled "." * digitsRule * (1 + exponentRule)

def nameRule : Language Char := oneOf isNameStart * (oneOf isNameChar)∗ * (1 + oneOf isNameMark)

/-- The words of each kind of token; of a quoted text only the opening quote. -/
def Kind.rule : Kind → Language Char
  | .newline => (1 + spelled "\r") * spelled "\n"
  | .comment => spelled "#" * (oneOf (· != '\n'))∗
  | .integer => integerRule
  | .float => floatRule
  | .quoted => spelled "\""
  | .atom => spelled ":" * nameRule
  | .identifier => nameRule
  | fixed => (Kind.spellings.lookup fixed).elim 0 spelled

/-- A function takes the longest word of a language at the start of each text, and nothing where the
text begins with no word of it. -/
structure Takes (length? : List Char → Option Nat) (rule : Language Char) : Prop where
  word {text : List Char} {n : Nat} : length? text = some n →
    ∃ word rest, text = word ++ rest ∧ word.length = n ∧ word ∈ rule
  most {word : List Char} (rest : List Char) : word ∈ rule →
    ∃ n, length? (word ++ rest) = some n ∧ word.length ≤ n

section Classes

variable {p : Char → Bool} {word rest text : List Char} {c : Char}

theorem mem_oneOf_mul {l : Language Char} :
    word ∈ oneOf p * l ↔ ∃ c cs, p c = true ∧ cs ∈ l ∧ word = c :: cs := by
  constructor
  · rintro ⟨_, ⟨c, inside, rfl⟩, cs, member, rfl⟩
    exact ⟨c, cs, inside, member, rfl⟩
  · rintro ⟨c, cs, inside, member, rfl⟩
    exact ⟨[c], ⟨c, inside, rfl⟩, cs, member, rfl⟩

/-- A word repeats a class when all of its characters are in it. -/
theorem mem_kstar_oneOf : word ∈ (oneOf p)∗ ↔ ∀ c ∈ word, p c = true := by
  rw [Language.mem_kstar]
  constructor
  · rintro ⟨parts, rfl, each⟩ c member
    obtain ⟨part, found, inside⟩ := List.mem_flatten.mp member
    obtain ⟨d, holds, rfl⟩ := each part found
    rw [List.mem_singleton.mp inside]
    exact holds
  · intro inside
    refine ⟨word.map fun c => [c], (List.flatMap_singleton' word).symm, fun part found => ?_⟩
    obtain ⟨c, member, rfl⟩ := List.mem_map.mp found
    exact ⟨c, inside c member, rfl⟩

/-- A word of a language in front of a repetition of its words. -/
theorem append_mem_kstar {l : Language Char} {part : List Char} (first : part ∈ l)
    (member : word ∈ l∗) : part ++ word ∈ l∗ := by
  obtain ⟨parts, rfl, each⟩ := Language.mem_kstar.mp member
  exact Language.mem_kstar.mpr ⟨part :: parts, rfl, List.forall_mem_cons.mpr ⟨first, each⟩⟩

theorem mem_one_add {l : Language Char} : word ∈ 1 + l ↔ word = [] ∨ word ∈ l := by
  rw [Language.mem_add, Language.mem_one]

/-- The leading characters in a class. -/
theorem exists_span (p : Char → Bool) (text : List Char) :
    ∃ word rest, text = word ++ rest ∧ word.length = spanLength p text ∧ ∀ c ∈ word, p c = true :=
  ⟨text.take (spanLength p text), text.drop (spanLength p text), (List.take_append_drop _ _).symm,
    List.length_take_of_le (spanLength_le _ _), fun _ => of_mem_take_spanLength⟩

/-- Characters in a class in front of a text lengthen its span by their number. -/
theorem spanLength_add (inside : ∀ c ∈ word, p c = true) (rest : List Char) :
    spanLength p (word ++ rest) = word.length + spanLength p rest := by
  induction word with
  | nil => simp
  | cons c cs ih =>
      have first : p c = true := inside c List.mem_cons_self
      have others := ih fun d member => inside d (List.mem_cons_of_mem c member)
      simp only [List.cons_append, spanLength, first, if_true, others, List.length_cons]
      omega

theorem spanLength_cons (outside : p c = false) : spanLength p (c :: text) = 0 := by
  simp [spanLength, outside]

end Classes

/-! ## Numbers -/

section Numbers

variable {word rest text : List Char} {c : Char}

theorem mem_digitsRule : word ∈ digitsRule ↔ word ≠ [] ∧ ∀ c ∈ word, isDigit c = true := by
  rw [digitsRule, mem_oneOf_mul]
  constructor
  · rintro ⟨c, cs, first, others, rfl⟩
    exact ⟨List.cons_ne_nil _ _, List.forall_mem_cons.mpr ⟨first, mem_kstar_oneOf.mp others⟩⟩
  · rintro ⟨nonempty, inside⟩
    obtain ⟨c, cs, rfl⟩ := List.exists_cons_of_ne_nil nonempty
    obtain ⟨first, others⟩ := List.forall_mem_cons.mp inside
    exact ⟨c, cs, first, mem_kstar_oneOf.mpr others, rfl⟩

/-- One or more digits at the start of a text, as many as there are. -/
theorem exists_digits {n : Nat} (taken : spanLength isDigit text = n + 1) :
    ∃ word rest, text = word ++ rest ∧ word.length = n + 1 ∧ word ∈ digitsRule := by
  obtain ⟨word, rest, split, length, inside⟩ := exists_span isDigit text
  rw [taken] at length
  refine ⟨word, rest, split, length, mem_digitsRule.mpr ⟨?_, inside⟩⟩
  exact List.ne_nil_of_length_eq_add_one length

theorem digitsLength_digit (digit : isDigit c = true) (text : List Char) :
    digitsLength (c :: text) = digitsLength text + 1 := by
  cases text <;> simp [digitsLength, digit]

theorem digitsLength_underscore (digit : isDigit c = true) (text : List Char) :
    digitsLength ('_' :: c :: text) = digitsLength text + 2 := by
  have underscore : isDigit '_' = false := by decide
  simp [digitsLength, underscore, digit]

theorem digit_mem_furtherDigits (digit : isDigit c = true) (member : word ∈ furtherDigits) :
    c :: word ∈ furtherDigits := by
  have first : [c] ∈ oneOf isDigit + spelled "_" * oneOf isDigit := .inl ⟨c, digit, rfl⟩
  exact append_mem_kstar first member

theorem underscore_mem_furtherDigits (digit : isDigit c = true) (member : word ∈ furtherDigits) :
    '_' :: c :: word ∈ furtherDigits := by
  have first : ['_', c] ∈ oneOf isDigit + spelled "_" * oneOf isDigit :=
    .inr ⟨['_'], rfl, [c], ⟨c, digit, rfl⟩, rfl⟩
  exact append_mem_kstar first member

/-- Further digits in front of a text are counted by their number. -/
theorem digitsLength_append (member : word ∈ furtherDigits) (rest : List Char) :
    digitsLength (word ++ rest) = word.length + digitsLength rest := by
  obtain ⟨parts, rfl, each⟩ := Language.mem_kstar.mp member
  clear member
  induction parts with
  | nil => simp
  | cons part parts ih =>
      obtain ⟨first, others⟩ := List.forall_mem_cons.mp each
      rw [List.flatten_cons, List.append_assoc, List.length_append]
      rcases first with ⟨c, digit, rfl⟩ | ⟨_, rfl, _, ⟨c, digit, rfl⟩, rfl⟩
      · have step := digitsLength_digit digit (parts.flatten ++ rest)
        rw [ih others] at step
        simpa [Nat.add_comm, Nat.add_left_comm, Nat.add_assoc] using step
      · have step := digitsLength_underscore digit (parts.flatten ++ rest)
        rw [ih others] at step
        simpa [Nat.add_comm, Nat.add_left_comm, Nat.add_assoc] using step

theorem exists_furtherDigits (text : List Char) :
    ∃ word rest, text = word ++ rest ∧ word.length = digitsLength text ∧ word ∈ furtherDigits := by
  -- Only the fifth case, an underscore in front of a digit, takes two characters at once.
  fun_induction digitsLength text with
  | case1 => exact ⟨[], [], rfl, rfl, Language.nil_mem_kstar _⟩
  | case2 c digit =>
      exact ⟨[c], [], rfl, rfl, digit_mem_furtherDigits digit (Language.nil_mem_kstar _)⟩
  | case3 c => exact ⟨[], [c], rfl, rfl, Language.nil_mem_kstar _⟩
  | case4 c d cs digit ih =>
      obtain ⟨word, rest, split, length, member⟩ := ih
      exact ⟨c :: word, rest, by rw [split]; rfl, by rw [List.length_cons, length],
        digit_mem_furtherDigits digit member⟩
  | case5 c d cs _ behind ih =>
      obtain ⟨word, rest, split, length, member⟩ := ih
      obtain ⟨underscore, digit⟩ := Bool.and_eq_true_iff.mp behind
      obtain rfl : c = '_' := by simpa using underscore
      exact ⟨'_' :: d :: word, rest, by rw [split]; rfl, by simp [length],
        underscore_mem_furtherDigits digit member⟩
  | case6 c d cs => exact ⟨[], c :: d :: cs, rfl, rfl, Language.nil_mem_kstar _⟩

/-- The digits of a number end in front of anything that is no digit and no underscore. -/
theorem integerLength?_append (member : word ∈ integerRule) (rest : List Char) :
    integerLength? (word ++ rest) = some (word.length + digitsLength rest) := by
  obtain ⟨c, cs, digit, further, rfl⟩ := mem_oneOf_mul.mp member
  have length := digitsLength_append further rest
  simp only [List.cons_append, integerLength?, digit, if_true, length, List.length_cons,
    Option.some.injEq]
  omega

theorem takes_integer : Takes integerLength? integerRule where
  word := by
    intro text n taken
    cases text with
    | nil => cases taken
    | cons c cs =>
        simp only [integerLength?, Option.ite_none_right_eq_some, Option.some.injEq] at taken
        obtain ⟨digit, rfl⟩ := taken
        obtain ⟨word, rest, split, length, member⟩ := exists_furtherDigits cs
        exact ⟨c :: word, rest, by rw [split]; rfl, by rw [List.length_cons, length],
          mem_oneOf_mul.mpr ⟨c, word, digit, member, rfl⟩⟩
  most := by
    intro word rest member
    exact ⟨_, integerLength?_append member rest, Nat.le_add_right _ _⟩

/-- What stands behind the mark of an exponent is split into its sign, if there is one, and digits. -/
theorem exponentLength_eq {e : Char} {sign digits : List Char} (mark : isExponentMark e = true)
    (signs : sign ∈ 1 + oneOf isSign)
    (unsigned : sign = [] → ∀ s ∈ digits.head?, isSign s = false) :
    exponentLength (e :: (sign ++ digits)) =
      if spanLength isDigit digits = 0 then 0 else 1 + sign.length + spanLength isDigit digits := by
  have marked : (e == 'e' || e == 'E') = true := mark
  rcases mem_one_add.mp signs with rfl | ⟨s, signed, rfl⟩
  -- Without a sign, the first digit must not be taken for one.
  · cases digits with
    | nil => simp [exponentLength, marked, spanLength]
    | cons d ds =>
        have digit : (d == '+' || d == '-') = false := unsigned rfl d rfl
        simp only [List.nil_append, exponentLength, marked, digit, if_true, Bool.false_eq_true,
          if_false, List.drop_zero]
        cases spanLength isDigit (d :: ds) <;> simp
  · have signed : (s == '+' || s == '-') = true := signed
    simp only [exponentLength, List.cons_append, List.nil_append, marked, signed, if_true,
      List.drop_one, List.tail_cons]
    cases spanLength isDigit digits <;> simp

theorem exists_sign (text : List Char) : ∃ sign digits, text = sign ++ digits ∧
    sign ∈ 1 + oneOf isSign ∧ (sign = [] → ∀ s ∈ digits.head?, isSign s = false) := by
  cases text with
  | nil => exact ⟨[], [], rfl, mem_one_add.mpr (.inl rfl), by simp⟩
  | cons s ds =>
      cases signed : isSign s with
      | true => exact ⟨[s], ds, rfl, mem_one_add.mpr (.inr ⟨s, signed, rfl⟩), by simp⟩
      | false => exact ⟨[], s :: ds, rfl, mem_one_add.mpr (.inl rfl), by simpa using signed⟩

/-- An exponent at the start of a text, if there is one. -/
theorem exists_exponent (text : List Char) :
    ∃ word rest, text = word ++ rest ∧ word.length = exponentLength text ∧ word ∈ 1 + exponentRule := by
  -- Where the function takes nothing, what is taken is the empty word.
  have without : exponentLength text = 0 →
      ∃ word rest, text = word ++ rest ∧ word.length = exponentLength text ∧
        word ∈ 1 + exponentRule :=
    fun none => ⟨[], text, rfl, none.symm, mem_one_add.mpr (.inl rfl)⟩
  cases text with
  | nil => exact without rfl
  | cons e cs =>
      cases mark : isExponentMark e with
      | false =>
          have unmarked : (e == 'e' || e == 'E') = false := mark
          exact without (by simp [exponentLength, unmarked])
      | true =>
          obtain ⟨sign, digits, rfl, signs, unsigned⟩ := exists_sign cs
          have length := exponentLength_eq mark signs unsigned
          cases taken : spanLength isDigit digits with
          | zero =>
              rw [if_pos taken] at length
              exact without length
          | succ n =>
              obtain ⟨word, rest, rfl, count, member⟩ := exists_digits taken
              rw [taken, if_neg (Nat.succ_ne_zero n)] at length
              refine ⟨e :: (sign ++ word), rest, by simp, ?_, mem_one_add.mpr (.inr ?_)⟩
              · simp only [length, List.length_cons, List.length_append, count]
                omega
              · exact ⟨e :: sign, mem_oneOf_mul.mpr ⟨e, sign, mark, signs, rfl⟩, word, member, rfl⟩

theorem isSign_of_isDigit (digit : isDigit c = true) : isSign c = false := by
  cases signed : isSign c with
  | false => rfl
  | true =>
      simp only [isSign, Bool.or_eq_true, beq_iff_eq] at signed
      rcases signed with rfl | rfl <;> cases digit

/-- An exponent in front of a text is taken whole. -/
theorem length_le_exponentLength (member : word ∈ exponentRule) (rest : List Char) :
    word.length ≤ exponentLength (word ++ rest) := by
  obtain ⟨front, isFront, digits, isDigits, rfl⟩ := member
  obtain ⟨e, sign, mark, signs, rfl⟩ := mem_oneOf_mul.mp isFront
  obtain ⟨nonempty, inside⟩ := mem_digitsRule.mp isDigits
  obtain ⟨d, ds, rfl⟩ := List.exists_cons_of_ne_nil nonempty
  have unsigned : sign = [] → ∀ s ∈ (d :: ds ++ rest).head?, isSign s = false := by
    rintro - s member
    obtain rfl : d = s := Option.some.inj member
    exact isSign_of_isDigit (inside d List.mem_cons_self)
  have length := exponentLength_eq mark signs unsigned
  rw [spanLength_add inside rest, List.length_cons, Nat.succ_add, if_neg (Nat.succ_ne_zero _)] at length
  simp only [List.cons_append, List.append_assoc, List.length_cons, List.length_append] at length ⊢
  omega

theorem floatLength?_eq {whole : List Char} {n : Nat} (isWhole : whole ∈ integerRule)
    (digits : spanLength isDigit text = n + 1) :
    floatLength? (whole ++ '.' :: text) =
      some (whole.length + 1 + (n + 1) + exponentLength (text.drop (n + 1))) := by
  have integer := integerLength?_append isWhole ('.' :: text)
  have stops : digitsLength ('.' :: text) = 0 := by cases text <;> rfl
  rw [stops, Nat.add_zero] at integer
  simp only [floatLength?, integer, List.drop_left, digits]

theorem takes_float : Takes floatLength? floatRule where
  word := by
    intro text n taken
    cases found : integerLength? text with
    | none => simp only [floatLength?, found, reduceCtorEq] at taken
    | some length =>
        obtain ⟨whole, rest, rfl, rfl, isWhole⟩ := takes_integer.word found
        simp only [floatLength?, found, List.drop_left] at taken
        -- A float has a point behind its digits, and digits behind the point.
        split at taken
        next cs =>
            cases digits : spanLength isDigit cs with
            | zero => simp only [digits, reduceCtorEq] at taken
            | succ k =>
                simp only [digits, Option.some.injEq] at taken
                obtain ⟨fraction, after, rfl, length, isDigits⟩ := exists_digits digits
                rw [← length, List.drop_left] at taken
                obtain ⟨exponent, behind, rfl, count, isExponent⟩ := exists_exponent after
                refine ⟨whole ++ ['.'] ++ fraction ++ exponent, behind, by simp, ?_, ?_⟩
                · simp only [List.length_append, List.length_singleton]
                  omega
                · exact ⟨_, ⟨_, ⟨whole, isWhole, ['.'], rfl, rfl⟩, fraction, isDigits, rfl⟩, exponent,
                    isExponent, rfl⟩
        next => cases taken
  most := by
    rintro _ rest ⟨_, ⟨_, ⟨whole, isWhole, point, rfl, rfl⟩, digits, isDigits, rfl⟩, exponent,
      isExponent, rfl⟩
    obtain ⟨nonempty, inside⟩ := mem_digitsRule.mp isDigits
    have positive := List.length_pos_iff.mpr nonempty
    have span := spanLength_add inside (exponent ++ rest)
    obtain ⟨n, count⟩ : ∃ n, spanLength isDigit (digits ++ (exponent ++ rest)) = n + 1 :=
      ⟨_, (Nat.sub_add_cancel (by omega)).symm⟩
    have taken := floatLength?_eq isWhole count
    refine ⟨_, by simpa using taken, ?_⟩
    have one : ".".toList.length = 1 := rfl
    rw [List.length_append, List.length_append, List.length_append, one]
    rcases mem_one_add.mp isExponent with rfl | exponential
    · rw [List.length_nil]
      omega
    · -- The digits end before the mark of the exponent.
      obtain ⟨e, tail, mark, rfl⟩ : ∃ e tail, isExponentMark e = true ∧ exponent = e :: tail := by
        obtain ⟨_, isFront, _, -, rfl⟩ := exponential
        obtain ⟨e, sign, mark, -, rfl⟩ := mem_oneOf_mul.mp isFront
        exact ⟨e, _, mark, rfl⟩
      have noDigit : isDigit e = false := by
        simp only [isExponentMark, Bool.or_eq_true, beq_iff_eq] at mark
        rcases mark with rfl | rfl <;> rfl
      rw [List.cons_append, spanLength_cons noDigit, ← List.cons_append, count] at span
      replace span : n + 1 = digits.length := span
      have covered := length_le_exponentLength exponential rest
      rw [span, List.drop_left]
      omega

end Numbers

/-! ## Names, comments and newlines -/

section Names

variable {word : List Char}

/-- The words of the rule of names are the names. -/
theorem mem_nameRule : word ∈ nameRule ↔ IsName word := by
  constructor
  · rintro ⟨_, ⟨_, ⟨first, start, rfl⟩, body, inside, rfl⟩, mark, marked, rfl⟩
    refine ⟨first, body, mark, rfl, start, mem_kstar_oneOf.mp inside, ?_⟩
    rcases mem_one_add.mp marked with rfl | ⟨m, isMark, rfl⟩
    · exact ⟨Nat.zero_le 1, List.forall_mem_nil _⟩
    · exact ⟨Nat.le_refl 1, by simpa using isMark⟩
  · rintro ⟨first, body, mark, rfl, start, inside, single, marked⟩
    refine ⟨first :: body, mem_oneOf_mul.mpr ⟨first, body, start, mem_kstar_oneOf.mpr inside, rfl⟩,
      mark, mem_one_add.mpr ?_, rfl⟩
    cases mark with
    | nil => exact .inl rfl
    | cons m ms =>
        obtain rfl : ms = [] := List.eq_nil_of_length_eq_zero (by simpa using single)
        exact .inr ⟨m, marked m List.mem_cons_self, rfl⟩

theorem takes_name : Takes nameLength? nameRule where
  word := by
    intro text n taken
    obtain ⟨name, rest, split, length, isName⟩ := exists_name taken
    exact ⟨name, rest, split, length, mem_nameRule.mpr isName⟩
  most := by
    intro word rest member
    obtain ⟨first, body, mark, rfl, start, inside, single, marked⟩ := mem_nameRule.mp member
    have span := spanLength_add inside (mark ++ rest)
    -- A mark continues no name, so the body ends in front of it.
    cases mark with
    | nil =>
        simp only [nameLength?, List.append_nil, List.cons_append, start, if_true, List.nil_append]
          at span ⊢
        split
        next => exact ⟨_, rfl, by simp only [List.length_cons]; split <;> omega⟩
        next => exact ⟨_, rfl, by simp only [List.length_cons]; omega⟩
    | cons m ms =>
        obtain rfl : ms = [] := List.eq_nil_of_length_eq_zero (by simpa using single)
        have isMark := marked m List.mem_cons_self
        rw [List.singleton_append, spanLength_cons (not_isNameChar_of_isNameMark isMark),
          Nat.add_zero] at span
        refine ⟨body.length + 2, ?_, by simp⟩
        simp [nameLength?, start, span, isMark]

theorem takes_atom : Takes atomLength? (spelled ":" * nameRule) where
  word := by
    intro text n taken
    unfold atomLength? at taken
    split at taken
    next cs =>
        obtain ⟨k, found, rfl⟩ := Option.map_eq_some_iff.mp taken
        obtain ⟨name, rest, rfl, rfl, isName⟩ := takes_name.word found
        exact ⟨':' :: name, rest, rfl, rfl, [':'], rfl, name, isName, rfl⟩
    next => cases taken
  most := by
    rintro _ rest ⟨_, rfl, name, isName, rfl⟩
    obtain ⟨n, found, le⟩ := takes_name.most rest isName
    exact ⟨n + 1, congrArg (Option.map (· + 1)) found, Nat.succ_le_succ le⟩

theorem takes_comment : Takes commentLength? (spelled "#" * (oneOf (· != '\n'))∗) where
  word := by
    intro text n taken
    unfold commentLength? at taken
    split at taken
    next cs =>
        obtain ⟨line, rest, split, length, inside⟩ := exists_span (· != '\n') cs
        obtain rfl := Option.some.inj taken
        exact ⟨'#' :: line, rest, by rw [split]; rfl, by rw [List.length_cons, length], ['#'], rfl,
          line, mem_kstar_oneOf.mpr inside, rfl⟩
    next => cases taken
  most := by
    rintro _ rest ⟨_, rfl, line, inside, rfl⟩
    have span := spanLength_add (mem_kstar_oneOf.mp inside) rest
    refine ⟨_, rfl, ?_⟩
    change ('#' :: line).length ≤ spanLength _ (line ++ rest) + 1
    rw [span, List.length_cons]
    omega

theorem takes_newline : Takes newlineLength? ((1 + spelled "\r") * spelled "\n") where
  word := by
    intro text n taken
    unfold newlineLength? at taken
    split at taken
    · cases taken
      exact ⟨['\n'], _, rfl, rfl, [], .inl rfl, ['\n'], rfl, rfl⟩
    · cases taken
      exact ⟨['\r', '\n'], _, rfl, rfl, ['\r'], .inr rfl, ['\n'], rfl, rfl⟩
    · cases taken
  most := by
    rintro _ rest ⟨return?, before, _, rfl, rfl⟩
    rcases mem_one_add.mp before with rfl | rfl
    · exact ⟨1, rfl, Nat.le_refl 1⟩
    · exact ⟨2, rfl, Nat.le_refl 2⟩

/-- A fixed spelling is the longest word of its own language. -/
theorem takes_spelled (text : String) : Takes (wordLength? text.toList) (spelled text) where
  word := by
    intro _ n taken
    obtain ⟨⟨rest, rfl⟩, rfl⟩ := wordLength?_eq_some_iff.mp taken
    exact ⟨text.toList, rest, rfl, rfl, rfl⟩
  most := by
    rintro _ rest rfl
    exact ⟨_, wordLength?_eq_some_iff.mpr ⟨List.prefix_append _ _, rfl⟩, Nat.le_refl _⟩

end Names

/-! ## The longest word of all rules -/

theorem rule_spelling : ∀ spelling ∈ Kind.spellings, spelling.1.rule = spelled spelling.2 := by
  simp only [Kind.spellings, List.forall_mem_cons]
  repeat' apply And.intro
  all_goals first | rfl | exact List.forall_mem_nil _

/-- Every kind takes the longest word of its rule. -/
theorem Kind.takes (kind : Kind) : Takes kind.length? kind.rule := by
  cases known : Kind.spellings.lookup kind with
  | some text =>
      have member := mem_spellings_of_lookup known
      have length : kind.length? = wordLength? text.toList := funext (length?_spelling _ member)
      rw [length, rule_spelling _ member]
      exact takes_spelled text
  | none =>
      cases kind
      case newline => exact takes_newline
      case comment => exact takes_comment
      case integer => exact takes_integer
      case float => exact takes_float
      case quoted => exact takes_spelled "\""
      case atom => exact takes_atom
      case identifier => exact takes_name
      all_goals cases known

section Longest

variable {text word : List Char} {kind other : Kind} {n : Nat}

/-- No rule has a longer word at the start of a text than the one that wins. -/
theorem length_le_of_longest? (won : longest? text = some (kind, n)) (member : word ∈ other.rule)
    (starts : word <+: text) : word.length ≤ n := by
  obtain ⟨rest, rfl⟩ := starts
  obtain ⟨m, taken, le⟩ := other.takes.most rest member
  obtain ⟨best, found, atLeast⟩ :=
    @exists_foldl_better_le (word ++ rest) Kind.all none m (.inr ⟨other, mem_all other, taken⟩)
  cases Option.some.inj (won.symm.trans found)
  exact Nat.le_trans le atLeast

/-- Where no rule wins, no word of any rule begins. -/
theorem not_prefix_of_longest? (lost : longest? text = none) (member : word ∈ other.rule) :
    ¬ word <+: text := by
  rintro ⟨rest, rfl⟩
  obtain ⟨m, taken, -⟩ := other.takes.most rest member
  obtain ⟨best, found, -⟩ :=
    @exists_foldl_better_le (word ++ rest) Kind.all none m (.inr ⟨other, mem_all other, taken⟩)
  cases lost.symm.trans found

/-- A word of a rule is taken whole where nothing follows it. -/
theorem length?_word (member : word ∈ kind.rule) : kind.length? word = some word.length := by
  obtain ⟨n, taken, le⟩ := kind.takes.most [] member
  rw [List.append_nil] at taken
  obtain ⟨front, rest, split, length, -⟩ := kind.takes.word taken
  have whole : n ≤ word.length := by simp [split, ← length]
  rw [taken, Nat.le_antisymm whole le]

/-- A float is longer than the integer that it begins with. -/
theorem integer_lt_float {m : Nat} (integer : integerLength? text = some n)
    (float : floatLength? text = some m) : n < m := by
  unfold floatLength? at float
  simp only [integer] at float
  split at float
  next =>
      split at float
      · cases float
      · cases float
        omega
  next => cases float

/-- The kind of the words that begin with a character, if they are no fixed spellings; numbers are told
apart only by what follows. -/
def begun (c : Char) : Kind :=
  if c = '\n' ∨ c = '\r' then .newline
  else if c = '#' then .comment
  else if c = '"' then .quoted
  else if c = ':' then .atom
  else if isDigit c then .integer
  else .identifier

theorem length?_nil (kind : Kind) : kind.length? [] = none := by
  cases kind <;> rfl

/-- A word of a rule is a fixed spelling, or its kind is told by its first character. -/
theorem of_mem_rule (member : word ∈ kind.rule) :
    (∃ spelling ∈ Kind.spellings, spelling.1 = kind ∧ spelling.2.toList = word) ∨
      ∃ c cs, word = c :: cs ∧ (kind = begun c ∨ kind = .float ∧ begun c = .integer) := by
  have taken := length?_word member
  cases word with
  | nil =>
      rw [length?_nil] at taken
      cases taken
  | cons c cs =>
      -- Numbers and names begin with none of the characters that `begun` looks for first.
      have digits : isDigit c = true → begun c = .integer := by
        intro digit
        have other : ∀ d, isDigit d = false → c ≠ d := by
          rintro d none rfl
          rw [none] at digit
          cases digit
        simp [begun, digit, other '\n' rfl, other '\r' rfl, other '#' rfl, other '"' rfl,
          other ':' rfl]
      have names : isNameStart c = true → begun c = .identifier := by
        intro start
        have other : ∀ d, isNameStart d = false → c ≠ d := by
          rintro d none rfl
          rw [none] at start
          cases start
        simp [begun, not_isDigit_of_isNameStart start, other '\n' rfl, other '\r' rfl,
          other '#' rfl, other '"' rfl, other ':' rfl]
      rcases length?_cons taken with spelled | ⟨rfl, rfl | rfl⟩ | ⟨rfl, rfl⟩ | ⟨rfl | rfl, digit⟩ |
        ⟨rfl, rfl⟩ | ⟨rfl, rfl⟩ | ⟨rfl, start⟩
      · obtain ⟨spelling, known, rfl, ds, letters, starts, length⟩ := spelled
        refine .inl ⟨spelling, known, rfl, ?_⟩
        rw [letters]
        exact starts.eq_of_length (by simpa using length.symm)
      · exact .inr ⟨_, cs, rfl, .inl rfl⟩
      · exact .inr ⟨_, cs, rfl, .inl rfl⟩
      · exact .inr ⟨_, cs, rfl, .inl rfl⟩
      · exact .inr ⟨c, cs, rfl, .inl (digits digit).symm⟩
      · exact .inr ⟨c, cs, rfl, .inr ⟨rfl, digits digit⟩⟩
      · exact .inr ⟨_, cs, rfl, .inl rfl⟩
      · exact .inr ⟨_, cs, rfl, .inl rfl⟩
      · exact .inr ⟨c, cs, rfl, .inl (names start).symm⟩

/-- The spelling of a kind is in no other rule, but a keyword is also a name. -/
theorem kind_of_spelling {spelling : Kind × String} (known : spelling ∈ Kind.spellings)
    (also : spelling.2.toList ∈ other.rule) :
    other = spelling.1 ∨ other = .identifier ∧ spelling.1.isKeyword = true := by
  have keyword : ∀ spelling ∈ Kind.spellings, isNameStart (spelling.2.toList.headD ' ') = true →
      spelling.1.isKeyword = true := by
    decide
  obtain ⟨c, cs, letters⟩ := List.exists_cons_of_ne_nil (spelling_shape spelling known).1
  obtain ⟨-, digit, signs, -, alone⟩ := spelling_cons known letters
  have taken := length?_word also
  rw [letters] at taken
  -- By its first character, a spelling can only be in the rule of another one, of atoms, or of names.
  rcases length?_cons taken with spelled | ⟨-, rfl | rfl⟩ | ⟨-, rfl⟩ | ⟨-, isDigit⟩ | ⟨-, rfl⟩ |
    ⟨rfl, rfl⟩ | ⟨rfl, start⟩
  · obtain ⟨second, member, rfl, ds, word, starts, length⟩ := spelled
    have same : ds = cs := by
      obtain ⟨-, inside⟩ := List.cons_prefix_cons.mp starts
      exact inside.eq_of_length (by simpa using length.symm)
    have equal : second.2 = spelling.2 := String.toList_inj.mp (by rw [word, letters, same])
    exact .inl (congrArg Prod.fst (spelling_injective _ member _ known equal))
  · simp at signs
  · simp at signs
  · simp at signs
  · rw [digit] at isDigit
    cases isDigit
  · simp at signs
  · -- A colon alone is no atom.
    rw [alone rfl] at taken
    cases taken
  · exact .inr ⟨rfl, keyword spelling known (by rw [letters]; exact start)⟩

/-- No word is both an integer and a float. -/
theorem not_integer_and_float (integer : word ∈ integerRule) : word ∉ floatRule := by
  intro float
  have less := integer_lt_float (@length?_word _ .integer integer) (@length?_word _ .float float)
  exact Nat.lt_irrefl _ less

/-- Two rules share a word only where a keyword is also a name. -/
theorem kind_unique (member : word ∈ kind.rule) (also : word ∈ other.rule) :
    other = kind ∨ other = .identifier ∧ kind.isKeyword = true ∨
      kind = .identifier ∧ other.isKeyword = true := by
  rcases of_mem_rule member with ⟨spelling, known, rfl, rfl⟩ | ⟨c, cs, rfl, first⟩
  · exact (kind_of_spelling known also).imp_right .inl
  -- Neither kind is a fixed one: the first character tells both, but for integers and floats.
  rcases of_mem_rule also with ⟨spelling, known, rfl, whole⟩ | ⟨d, ds, same, second⟩
  · rw [← whole] at member
    exact (kind_of_spelling known member).imp Eq.symm .inr
  · obtain ⟨rfl, rfl⟩ := List.cons.inj same
    rcases first with rfl | ⟨rfl, number⟩
    · rcases second with rfl | ⟨rfl, number⟩
      · exact .inl rfl
      · rw [number] at member
        exact absurd also (not_integer_and_float member)
    · rcases second with rfl | ⟨rfl, -⟩
      · rw [number] at also
        exact absurd member (not_integer_and_float also)
      · exact .inl rfl

/-- The rule that wins has the longest word that any rule has at the start of the text, and the kind of
that word is settled: a keyword is taken as such, and no other two rules share a word. -/
theorem longest?_word (won : longest? text = some (kind, n)) :
    ∃ word rest, text = word ++ rest ∧ word.length = n ∧ word ∈ kind.rule ∧
      (∀ (other : Kind) (longer : List Char), longer ∈ other.rule → longer <+: text →
        longer.length ≤ n) ∧
      ∀ other : Kind, word ∈ other.rule → other = kind ∨
        other = .identifier ∧ kind.isKeyword = true := by
  obtain ⟨word, rest, rfl, rfl, member⟩ := kind.takes.word (length?_of_longest? won)
  refine ⟨word, rest, rfl, rfl, member, fun other longer => length_le_of_longest? won, ?_⟩
  intro other also
  rcases kind_unique member also with same | name | ⟨rfl, keyword⟩
  · exact .inl same
  · exact .inr name
  · -- An identifier wins only over shorter words.
    obtain ⟨m, taken, le⟩ := other.takes.most rest also
    have differs : other ≠ .identifier := by
      rintro rfl
      cases keyword
    have less := length?_lt_of_identifier won differs taken
    exact absurd le (Nat.not_le_of_lt less)

end Longest

/-! ## Quoted texts -/

/-- What stands between the quotes of a text: characters of one line, and escapes of any character. -/
def quotedBody : Language Char :=
  (oneOf (fun c => c != '"' && c != '\n' && c != '\\') + spelled "\\" * oneOf fun _ => true)∗

def quotedRule : Language Char := spelled "\"" * quotedBody * spelled "\""

section Quoted

variable {text body rest : List Char} {c : Char} {count bytes settled n : Nat}

theorem plain_mem_quotedBody (plain : (c != '"' && c != '\n' && c != '\\') = true)
    (member : body ∈ quotedBody) : c :: body ∈ quotedBody := by
  have first : [c] ∈ oneOf (fun c => c != '"' && c != '\n' && c != '\\') +
      spelled "\\" * oneOf fun _ => true := .inl ⟨c, plain, rfl⟩
  exact append_mem_kstar first member

theorem escape_mem_quotedBody (c : Char) (member : body ∈ quotedBody) :
    '\\' :: c :: body ∈ quotedBody := by
  have first : ['\\', c] ∈ oneOf (fun c => c != '"' && c != '\n' && c != '\\') +
      spelled "\\" * oneOf fun _ => true := .inr ⟨['\\'], rfl, [c], ⟨c, rfl, rfl⟩, rfl⟩
  exact append_mem_kstar first member

/-- A closing quote that is found ends a body. -/
theorem exists_body (found : closingFrom count bytes settled text = .found n) :
    ∃ body rest, text = body ++ '"' :: rest ∧ n = count + body.length + 1 ∧ body ∈ quotedBody := by
  fun_induction closingFrom count bytes settled text with
  | case1 => cases found
  | case2 =>
      cases found
      exact ⟨[], _, rfl, rfl, Language.nil_mem_kstar _⟩
  | case3 => cases found
  | case4 => cases found
  | case5 count bytes settled c cs ih =>
      obtain ⟨body, rest, rfl, rfl, member⟩ := ih found
      refine ⟨'\\' :: c :: body, rest, rfl, ?_, escape_mem_quotedBody c member⟩
      simp only [List.length_cons]
      omega
  | case6 count bytes settled c cs quote newline last escape ih =>
      obtain ⟨body, rest, rfl, rfl, member⟩ := ih found
      -- A backslash is an escape whatever comes behind it, and here something does: the closing quote.
      have backslash : c ≠ '\\' := by
        intro same
        cases shape : body ++ '"' :: rest with
        | nil => exact last same shape
        | cons d ds => exact escape d ds same shape
      refine ⟨c :: body, rest, rfl, ?_, plain_mem_quotedBody ?_ member⟩
      · simp only [List.length_cons]
        omega
      · simp only [Bool.and_eq_true, bne_iff_ne]
        exact ⟨⟨quote, newline⟩, backslash⟩

/-- The search for the closing quote passes over a body. -/
theorem closingFrom_body (member : body ∈ quotedBody) (count bytes settled : Nat)
    (rest : List Char) : ∃ bytes' settled', closingFrom count bytes settled (body ++ rest) =
      closingFrom (count + body.length) bytes' settled' rest := by
  obtain ⟨parts, rfl, each⟩ := Language.mem_kstar.mp member
  clear member
  induction parts generalizing count bytes settled with
  | nil => exact ⟨bytes, settled, rfl⟩
  | cons part parts ih =>
      obtain ⟨first, others⟩ := List.forall_mem_cons.mp each
      rw [List.flatten_cons, List.append_assoc, List.length_append]
      -- A part is a plain character, or an escape of two characters that is passed over at once.
      rcases first with ⟨c, plain, rfl⟩ | ⟨_, rfl, _, ⟨c, -, rfl⟩, rfl⟩
      · simp only [Bool.and_eq_true, bne_iff_ne] at plain
        obtain ⟨⟨quote, newline⟩, backslash⟩ := plain
        obtain ⟨bytes', settled', step⟩ := ih (count + 1) (bytes + c.utf8Size) settled others
        refine ⟨bytes', settled', ?_⟩
        rw [List.singleton_append, closingFrom, step, List.length_singleton, Nat.add_assoc]
        · exact quote
        · exact newline
        · exact fun same _ => backslash same
        · exact fun _ _ same _ => backslash same
      · obtain ⟨bytes', settled', step⟩ :=
          ih (count + 2) (bytes + 1 + c.utf8Size) (bytes + 2) others
        refine ⟨bytes', settled', ?_⟩
        change closingFrom count bytes settled ('\\' :: c :: (parts.flatten ++ rest)) = _
        rw [closingFrom, step, Nat.add_assoc]
        rfl

/-- A quoted text at the start of a text is the only one there, and the search finds its end. -/
theorem closing_eq_found_iff : closing text = .found n ↔
    ∃ body rest, text = body ++ '"' :: rest ∧ n = body.length + 1 ∧ body ∈ quotedBody := by
  constructor
  · intro found
    obtain ⟨body, rest, split, length, member⟩ := exists_body found
    exact ⟨body, rest, split, by rw [length, Nat.zero_add], member⟩
  · rintro ⟨body, rest, rfl, rfl, member⟩
    obtain ⟨bytes, settled, step⟩ := closingFrom_body member 0 0 0 ('"' :: rest)
    rw [closing, step, closingFrom, Nat.zero_add]

/-- The search for a closing quote stops inside the text. -/
theorem le_of_missing {stopped : Nat} (missing : closingFrom count bytes settled text = .missing stopped)
    (le : settled ≤ bytes + Source.byteLength text) :
    stopped ≤ bytes + Source.byteLength text := by
  fun_induction closingFrom count bytes settled text with
  | case1 =>
      cases missing
      exact le
  | case2 => cases missing
  | case3 =>
      cases missing
      exact Nat.le_add_right _ _
  | case4 =>
      cases missing
      exact Nat.le_add_right _ _
  | case5 count bytes settled c cs ih =>
      have positive := c.utf8Size_pos
      have one : Char.utf8Size '\\' = 1 := rfl
      have inside := ih missing (by omega)
      simp only [Source.byteLength, one]
      omega
  | case6 count bytes settled c cs _ _ _ _ ih =>
      simp only [Source.byteLength] at le ⊢
      have inside := ih missing (by omega)
      omega

end Quoted

end Token
end Clausal
