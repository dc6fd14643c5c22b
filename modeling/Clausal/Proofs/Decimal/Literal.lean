import Clausal.Decimal.Layout
import Clausal.Proofs.Decimal.Shortest
import Clausal.Proofs.Syntax.Lexing

/-!
# Floats read back from their literals

A literal with a point has digits before and behind the point, and perhaps an exponent (`Pointed`).  It is
one word wherever a number would end behind it, and it is read as the double nearest to the number it stands
for.  The literals that doubles are shown by are of this form, except where a single digit has an exponent,
and stand for the shortest decimal of the double, which the double takes.

Main statement: `exists_word_of_point`.
-/

namespace Clausal
namespace Decimal

open Surface (Word)
open Token (Ends)

/-! ## Literals with a point -/

theorem isDigit_of_mem_toDigits {n : Nat} {c : Char} (h : c ∈ Nat.toDigits 10 n) : isDigit c = true := by
  have digit := Nat.isDigit_of_mem_toDigits (by decide) (by decide) h
  simpa [Char.isDigit, isDigit, Char.le_def] using digit

/-- Digits before and behind a point, and an exponent if one is written. -/
structure Pointed where
  whole : List Char
  fraction : List Char
  exponent : Option Int

namespace Pointed

/-- The text of an exponent. -/
def exponentText : Option Int → List Char
  | none => []
  | some e => 'e' :: ((if e < 0 then ['-'] else []) ++ Nat.toDigits 10 e.natAbs)

def text (p : Pointed) : List Char := p.whole ++ '.' :: (p.fraction ++ exponentText p.exponent)

/-- The number that a literal stands for. -/
def toRat (p : Pointed) : ℚ :=
  natOfDigits (p.whole ++ p.fraction) * 10 ^ (p.exponent.getD 0 - p.fraction.length)

/-- There are digits on both sides of the point, and nothing else. -/
structure Proper (p : Pointed) : Prop where
  whole_ne : p.whole ≠ []
  whole_digits : ∀ c ∈ p.whole, isDigit c = true
  fraction_ne : p.fraction ≠ []
  fraction_digits : ∀ c ∈ p.fraction, isDigit c = true

variable {p : Pointed} {rest : List Char}

/-! ### One word -/

/-- What ends a word of letters and digits is no digit. -/
theorem not_isDigit_of_ends (ends : Ends rest) : ∀ c ∈ rest.head?, isDigit c = false := by
  intro c member
  have outside := (ends c member).1
  simp only [Token.isNameChar, Bool.or_eq_false_iff] at outside
  exact outside.2

theorem exponentLength_eq (exponent : Option Int) (ends : Ends rest) :
    Token.exponentLength (exponentText exponent ++ rest) = (exponentText exponent).length := by
  cases exponent with
  | none =>
      cases rest with
      | nil => rfl
      | cons c cs =>
          -- A letter would not end the number.
          have outside := (ends c rfl).1
          have noMark : (c == 'e' || c == 'E') = false := by
            simp only [Bool.or_eq_false_iff, beq_eq_false_iff_ne]
            constructor <;> (rintro rfl; revert outside; decide)
          simp [exponentText, Token.exponentLength, noMark]
  | some e =>
      obtain ⟨d, ds, digits⟩ := List.exists_cons_of_ne_nil (@Nat.toDigits_ne_nil e.natAbs 10)
      have inside : ∀ c ∈ d :: ds, isDigit c = true := digits ▸ fun _ => isDigit_of_mem_toDigits
      have span := @Token.spanLength_append isDigit (d :: ds) rest inside (not_isDigit_of_ends ends)
      have noSign : (d == '+' || d == '-') = false := by
        have digit := inside d List.mem_cons_self
        simp only [Bool.or_eq_false_iff, beq_eq_false_iff_ne]
        constructor <;> (rintro rfl; revert digit; decide)
      rw [exponentText, digits]
      have here : Token.spanLength isDigit (d :: (ds ++ rest)) = ds.length + 1 := span
      split
      · simp [Token.exponentLength, here]
        omega
      · simp [Token.exponentLength, noSign, here]
        omega

/-- The digits behind the point are not followed by a digit. -/
theorem not_isDigit_exponentText (exponent : Option Int) (ends : Ends rest) :
    ∀ c ∈ (exponentText exponent ++ rest).head?, isDigit c = false := by
  cases exponent with
  | none => exact not_isDigit_of_ends ends
  | some e =>
      rintro _ ⟨⟩
      rfl

theorem integerLength?_eq (proper : p.Proper) :
    Token.integerLength? (p.text ++ rest) = some p.whole.length := by
  obtain ⟨d, ds, whole⟩ := List.exists_cons_of_ne_nil proper.whole_ne
  have digits := whole ▸ proper.whole_digits
  have first : isDigit d = true := digits d List.mem_cons_self
  have others := @Token.digitsLength_eq ('.' :: (p.fraction ++ exponentText p.exponent ++ rest)) ds
    (fun c member => digits c (List.mem_cons_of_mem d member)) (by rintro _ ⟨⟩; rfl)
  simp only [text, whole, List.cons_append, List.append_assoc] at others ⊢
  rw [Token.integerLength?, if_pos first, others, List.length_cons]

theorem floatLength?_eq (proper : p.Proper) (ends : Ends rest) :
    Token.floatLength? (p.text ++ rest) = some p.text.length := by
  have behind : (p.text ++ rest).drop p.whole.length =
      '.' :: (p.fraction ++ (exponentText p.exponent ++ rest)) := by
    simp [text]
  have span : Token.spanLength isDigit (p.fraction ++ (exponentText p.exponent ++ rest)) =
      p.fraction.length :=
    Token.spanLength_append proper.fraction_digits (not_isDigit_exponentText p.exponent ends)
  have length : p.text.length =
      p.whole.length + 1 + p.fraction.length + (exponentText p.exponent).length := by
    simp [text]
    omega
  obtain ⟨d, ds, fraction⟩ := List.exists_cons_of_ne_nil proper.fraction_ne
  rw [Token.floatLength?, integerLength?_eq proper]
  simp only [behind, span]
  rw [length, fraction, List.length_cons, ← fraction]
  have after : (p.fraction ++ (exponentText p.exponent ++ rest)).drop (ds.length + 1) =
      exponentText p.exponent ++ rest := by
    simp [fraction]
  simp only [after, exponentLength_eq p.exponent ends]

/-- A literal with a point is one word. -/
theorem lexes (proper : p.Proper) : Word.LexesBefore Ends ⟨.float, String.ofList p.text⟩ := by
  obtain ⟨d, ds, whole⟩ := List.exists_cons_of_ne_nil proper.whole_ne
  have digit : isDigit d = true := proper.whole_digits d (by simp [whole])
  have letters : p.text = d :: (ds ++ '.' :: (p.fraction ++ exponentText p.exponent)) := by
    simp [text, whole]
  refine .of_longest? (by simpa using letters) (Word.isBlank_of_isDigit digit) nofun fun rest ends => ?_
  rw [String.toList_ofList]
  have taken : Token.Kind.float.length? (p.text ++ rest) = some p.text.length :=
    floatLength?_eq proper ends
  refine Token.longest?_eq taken fun other m found => ?_
  rw [letters, List.cons_append] at found
  rcases Token.length?_cons found with spelled | ⟨-, rfl | rfl⟩ | ⟨-, rfl⟩ | ⟨rfl | rfl, -⟩ | ⟨-, rfl⟩ |
    ⟨-, rfl⟩ | ⟨-, start⟩
  · -- No fixed word begins with a digit.
    obtain ⟨spelling, member, -, ds, letters, -, -⟩ := spelled
    rw [(Token.spelling_cons member letters).2.1] at digit
    cases digit
  · cases digit
  · cases digit
  · cases digit
  · -- An integer ends before the point.
    have shorter : Token.Kind.integer.length? (p.text ++ rest) = some p.whole.length :=
      integerLength?_eq proper
    rw [← List.cons_append, ← letters] at found
    cases shorter.symm.trans found
    exact .inl (by simp [text])
  · rw [← List.cons_append, ← letters] at found
    cases taken.symm.trans found
    exact .inr ⟨rfl, .inl rfl⟩
  · cases digit
  · cases digit
  · rw [Token.not_isDigit_of_isNameStart start] at digit
    cases digit

/-! ### Reading -/

theorem readNat?_toDigits (n : Nat) : readNat? (Nat.toDigits 10 n) = some n := by
  have digits : (Nat.toDigits 10 n).all isDigit = true :=
    List.all_eq_true.mpr fun c member => isDigit_of_mem_toDigits member
  simp [readNat?, digits, natOfDigits_toDigits]

/-- Digits have no sign. -/
theorem readSign_of_isDigit {d : Char} (ds : List Char) (digit : isDigit d = true) :
    readSign (d :: ds) = (false, d :: ds) := by
  rw [readSign]
  · rintro _ ⟨⟩
    cases digit
  · rintro _ ⟨⟩
    cases digit

theorem readExponent?_eq (exponent : Option Int) :
    readExponent? (exponentText exponent) = some (exponent.getD 0) := by
  cases exponent with
  | none => rfl
  | some e =>
      obtain ⟨d, ds, digits⟩ := List.exists_cons_of_ne_nil (@Nat.toDigits_ne_nil e.natAbs 10)
      have digit : isDigit d = true := isDigit_of_mem_toDigits (by rw [digits]; exact List.mem_cons_self)
      have value := readNat?_toDigits e.natAbs
      rw [exponentText]
      split
      next negative =>
          have opposite : -(e.natAbs : Int) = e := by omega
          simpa [readExponent?, readSign, value] using opposite
      next positive =>
          have same : (e.natAbs : Int) = e := by omega
          have noSign := readSign_of_isDigit ds digit
          rw [← digits] at noSign
          simpa [readExponent?, noSign, value] using same

theorem takeWhile_digits {digits : List Char} (inside : ∀ c ∈ digits, isDigit c = true)
    (outside : ∀ c ∈ rest.head?, isDigit c = false) :
    (digits ++ rest).takeWhile isDigit = digits ∧ (digits ++ rest).dropWhile isDigit = rest := by
  rw [List.takeWhile_append_of_pos inside, List.dropWhile_append_of_pos inside]
  cases rest with
  | nil => simp
  | cons c cs =>
      have stop : isDigit c = false := outside c rfl
      simp [stop]

theorem readMagnitude?_eq (proper : p.Proper) :
    readMagnitude? p.text =
      some (nearest (natOfDigits (p.whole ++ p.fraction)) (p.exponent.getD 0 - p.fraction.length)) := by
  have point : ∀ c ∈ ('.' :: (p.fraction ++ exponentText p.exponent)).head?, isDigit c = false := by
    rintro _ ⟨⟩
    rfl
  have mark : ∀ c ∈ (exponentText p.exponent).head?, isDigit c = false := by
    have ended := not_isDigit_exponentText p.exponent (show Ends [] from nofun)
    rwa [List.append_nil] at ended
  obtain ⟨front, back⟩ := takeWhile_digits proper.whole_digits point
  obtain ⟨fraction, exponent⟩ := takeWhile_digits proper.fraction_digits mark
  have some_ : p.whole.isEmpty = false := by simpa using proper.whole_ne
  unfold readMagnitude? text
  simp only [front, back, fraction, exponent, some_, Bool.false_and, Bool.false_eq_true, if_false,
    readExponent?_eq, Option.map_some]

/-- The characters of a literal. -/
theorem mem_text (proper : p.Proper) {c : Char} (member : c ∈ p.text) :
    isDigit c = true ∨ c = '.' ∨ c = 'e' ∨ c = '-' := by
  have inExponent : c ∈ exponentText p.exponent → isDigit c = true ∨ c = '.' ∨ c = 'e' ∨ c = '-' := by
    intro member
    cases exponent : p.exponent with
    | none =>
        rw [exponent] at member
        cases member
    | some e =>
        rw [exponent, exponentText, List.mem_cons, List.mem_append] at member
        rcases member with mark | sign | digit
        · exact .inr (.inr (.inl mark))
        · split at sign
          · exact .inr (.inr (.inr (List.mem_singleton.mp sign)))
          · cases sign
        · exact .inl (isDigit_of_mem_toDigits digit)
  rw [text, List.mem_append, List.mem_cons, List.mem_append] at member
  rcases member with whole | point | fraction | exponent
  · exact .inl (proper.whole_digits c whole)
  · exact .inr (.inl point)
  · exact .inl (proper.fraction_digits c fraction)
  · exact inExponent exponent

theorem toLower_of_isDigit {d : Char} (digit : isDigit d = true) : d.toLower = d := by
  simp only [isDigit, Bool.and_eq_true, decide_eq_true_eq, Char.le_def] at digit
  have small : ¬ ('A'.val ≤ d.val) := by
    have high := digit.2
    intro upper
    exact absurd (UInt32.le_trans upper high) (by decide)
  unfold Char.toLower
  rw [dif_neg (fun range => small range.1)]

/-- A literal is read as the double nearest to the number it stands for. -/
theorem readFloat?_eq (proper : p.Proper) :
    readFloat? (p.text.filter (· != '_')) =
      some (nearest (natOfDigits (p.whole ++ p.fraction)) (p.exponent.getD 0 - p.fraction.length)) := by
  have kept : p.text.filter (· != '_') = p.text := by
    refine List.filter_eq_self.mpr fun c member => ?_
    rcases mem_text proper member with digit | rfl | rfl | rfl
    · have other : c ≠ '_' := by
        rintro rfl
        cases digit
      simpa using other
    · rfl
    · rfl
    · rfl
  obtain ⟨d, ds, whole⟩ := List.exists_cons_of_ne_nil proper.whole_ne
  have digit : isDigit d = true := proper.whole_digits d (by simp [whole])
  have letters : p.text = d :: (ds ++ '.' :: (p.fraction ++ exponentText p.exponent)) := by
    simp [text, whole]
  have unsigned : readSign p.text = (false, p.text) := by
    rw [letters]
    exact readSign_of_isDigit _ digit
  -- No word begins with a digit.
  have noWord : ∀ word : String, isDigit (word.toList.headD ' ') = false →
      String.ofList (p.text.map Char.toLower) ≠ word := by
    rintro _ start rfl
    rw [letters, List.map_cons, toLower_of_isDigit digit, String.toList_ofList, List.headD_cons,
      digit] at start
    cases start
  rw [kept]
  unfold readFloat?
  simp only [unsigned, Bool.false_eq_true, if_false, Option.map_id']
  split
  next same => exact absurd same (noWord _ rfl)
  next same => exact absurd same (noWord _ rfl)
  next same => exact absurd same (noWord _ rfl)
  next =>
      exact readMagnitude?_eq proper

end Pointed

/-! ## The literals of doubles -/

/-- Digits in front weigh as many tens as digits follow. -/
theorem natOfDigits_append (front back : List Char) :
    natOfDigits (front ++ back) = natOfDigits front * 10 ^ back.length + natOfDigits back := by
  have general : ∀ n, back.foldl (fun n c => n * 10 + digitValue c) n =
      n * 10 ^ back.length + natOfDigits back := by
    induction back with
    | nil => simp [natOfDigits]
    | cons c cs ih =>
        intro n
        rw [natOfDigits, List.foldl_cons, List.foldl_cons, ih, ih, List.length_cons, Nat.pow_succ]
        grind
  rw [natOfDigits, List.foldl_append, general]
  rfl

theorem natOfDigits_zeros (k : Nat) : natOfDigits (List.replicate k '0') = 0 := by
  induction k with
  | zero => rfl
  | succ k ih =>
      rw [List.replicate_succ', natOfDigits_concat, ih]
      rfl

theorem isDigit_of_mem_zeros {k : Nat} {c : Char} (member : c ∈ List.replicate k '0') :
    isDigit c = true := by
  rw [List.eq_of_mem_replicate member]
  rfl

section Layout

variable {s : Scientific}

section Positional

variable {digits : List Char} (value : natOfDigits digits = s.digits) (nonempty : digits ≠ [])
  (inside : ∀ c ∈ digits, isDigit c = true)

include value nonempty inside

/-- Digits with zeros behind them, in front of the point. -/
theorem exists_pointed_of_whole (whole : 0 ≤ s.exponent) :
    ∃ p : Pointed, p.Proper ∧ (positionalText literal digits s.exponent).toList = p.text ∧
      p.toRat = s.toRat := by
  unfold positionalText
  simp only
  rw [if_pos whole]
  refine ⟨⟨digits ++ List.replicate s.exponent.natAbs '0', ['0'], none⟩,
    ⟨by simp [nonempty], ?_, by simp, by simp [isDigit]⟩, ?_, ?_⟩
  · intro c member
    rcases List.mem_append.mp member with digit | zero
    · exact inside c digit
    · exact isDigit_of_mem_zeros zero
  · simp [literal, Pointed.text, Pointed.exponentText]
  · have power : (10 : ℚ) ^ s.exponent = 10 ^ s.exponent.natAbs := by
      rw [← zpow_natCast]
      congr 1
      omega
    -- The zero behind the point counts as well, and is taken back by the exponent.
    have tens : natOfDigits (digits ++ List.replicate s.exponent.natAbs '0' ++ ['0']) =
        s.digits * 10 ^ s.exponent.natAbs * 10 := by
      rw [natOfDigits_concat, natOfDigits_append, natOfDigits_zeros, value, List.length_replicate]
      rfl
    rw [Pointed.toRat, Scientific.toRat, tens, power, Option.getD_none, List.length_singleton]
    push_cast
    rw [zpow_neg_one]
    ring

/-- Digits with the point among them. -/
theorem exists_pointed_of_among (fraction : ¬ 0 ≤ s.exponent)
    (front : 0 ≤ s.exponent + digits.length - 1) :
    ∃ p : Pointed, p.Proper ∧ (positionalText literal digits s.exponent).toList = p.text ∧
      p.toRat = s.toRat := by
  have some : 0 < digits.length := List.length_pos_iff.mpr nonempty
  unfold positionalText
  simp only
  rw [if_neg fraction, if_pos front]
  generalize split : (s.exponent + digits.length - 1).natAbs + 1 = k
  have length : (digits.drop k).length = -s.exponent := by
    rw [List.length_drop]
    omega
  refine ⟨⟨digits.take k, digits.drop k, none⟩,
    ⟨?_, fun c member => inside c (List.mem_of_mem_take member), ?_,
      fun c member => inside c (List.mem_of_mem_drop member)⟩, ?_, ?_⟩
  · rw [← List.length_pos_iff, List.length_take]
    omega
  · rw [← List.length_pos_iff, List.length_drop]
    omega
  · simp [Pointed.text, Pointed.exponentText]
  · rw [Pointed.toRat, Scientific.toRat, List.take_append_drop, value, Option.getD_none, length,
      zero_sub, neg_neg]

/-- Digits with zeros between the point and them. -/
theorem exists_pointed_of_behind (fraction : ¬ 0 ≤ s.exponent)
    (behind : ¬ 0 ≤ s.exponent + digits.length - 1) :
    ∃ p : Pointed, p.Proper ∧ (positionalText literal digits s.exponent).toList = p.text ∧
      p.toRat = s.toRat := by
  have some : 0 < digits.length := List.length_pos_iff.mpr nonempty
  unfold positionalText
  simp only
  rw [if_neg fraction, if_neg behind]
  generalize gap : (s.exponent + digits.length - 1).natAbs - 1 = k
  refine ⟨⟨['0'], List.replicate k '0' ++ digits, none⟩,
    ⟨by simp, by simp [isDigit], by simp [nonempty], ?_⟩, ?_, ?_⟩
  · intro c member
    rcases List.mem_append.mp member with zero | digit
    · exact isDigit_of_mem_zeros zero
    · exact inside c digit
  · simp [Pointed.text, Pointed.exponentText]
  · -- Zeros in front of the digits count for nothing.
    have zeros : natOfDigits (['0'] ++ (List.replicate k '0' ++ digits)) = s.digits := by
      rw [natOfDigits_append, natOfDigits_append, natOfDigits_zeros, value, Nat.zero_mul, Nat.zero_add]
      simp [natOfDigits, digitValue]
    have exponent : (0 : Int) - ((List.replicate k '0' ++ digits).length : Nat) = s.exponent := by
      rw [List.length_append, List.length_replicate]
      omega
    rw [Pointed.toRat, Scientific.toRat, zeros, Option.getD_none, exponent]

end Positional

/-- Digits with a point among them, or with zeros before or behind them. -/
theorem exists_pointed_of_positional :
    ∃ p : Pointed, p.Proper ∧
      (positionalText literal (Nat.toDigits 10 s.digits) s.exponent).toList = p.text ∧
      p.toRat = s.toRat := by
  have value := natOfDigits_toDigits s.digits
  have nonempty := @Nat.toDigits_ne_nil s.digits 10
  have inside : ∀ c ∈ Nat.toDigits 10 s.digits, isDigit c = true := fun c => isDigit_of_mem_toDigits
  by_cases whole : 0 ≤ s.exponent
  · exact exists_pointed_of_whole value nonempty inside whole
  by_cases front : 0 ≤ s.exponent + (Nat.toDigits 10 s.digits).length - 1
  · exact exists_pointed_of_among value nonempty inside whole front
  · exact exists_pointed_of_behind value nonempty inside whole front

/-- The first digit, a point before the others, and an exponent; a single digit has no point. -/
theorem exists_pointed_of_exponent
    (point : '.' ∈ (exponentText literal (Nat.toDigits 10 s.digits) s.exponent).toList) :
    ∃ p : Pointed, p.Proper ∧
      (exponentText literal (Nat.toDigits 10 s.digits) s.exponent).toList = p.text ∧ p.toRat = s.toRat := by
  have value := natOfDigits_toDigits s.digits
  have inside : ∀ c ∈ Nat.toDigits 10 s.digits, isDigit c = true := fun c => isDigit_of_mem_toDigits
  obtain ⟨d, ds, digits⟩ := List.exists_cons_of_ne_nil (@Nat.toDigits_ne_nil s.digits 10)
  rw [digits] at value inside point ⊢
  generalize lead : s.exponent + ((d :: ds).length : Nat) - 1 = e
  have number : toString e.natAbs = String.ofList (Nat.toDigits 10 e.natAbs) :=
    Nat.toString_eq_ofList_toDigits
  have sign : (if e < 0 then "-" else literal.exponentSign).toList = if e < 0 then ['-'] else [] := by
    split <;> rfl
  cases ds with
  | nil =>
      -- Without a fraction there is no point in the text.
      exfalso
      simp only [exponentText, List.take_succ_cons, List.take_zero, List.drop_succ_cons, List.drop_zero,
        lead, number, String.toList_append, sign, String.toList_ofList, List.mem_append] at point
      rcases point with (((first | none) | mark) | minus) | digit
      · rw [List.mem_singleton] at first
        have digit := inside d List.mem_cons_self
        rw [← first] at digit
        cases digit
      · simp at none
      · simp at mark
      · split at minus <;> simp at minus
      · cases isDigit_of_mem_toDigits digit
  | cons second others =>
      refine ⟨⟨[d], second :: others, some e⟩,
        ⟨by simp, fun c member => inside c (by simp_all), by simp, fun c member => inside c (by simp_all)⟩,
        ?_, ?_⟩
      · simp only [exponentText, List.take_succ_cons, List.take_zero, List.drop_succ_cons, List.drop_zero,
          lead, number, String.toList_append, sign, String.toList_ofList]
        simp [Pointed.text, Pointed.exponentText]
      · have whole : natOfDigits ([d] ++ second :: others) = s.digits := value
        have exponent : e - ((second :: others).length : Nat) = s.exponent := by
          simp only [List.length_cons] at lead ⊢
          omega
        rw [Pointed.toRat, Scientific.toRat, whole, Option.getD_some, exponent]

theorem exists_pointed (point : '.' ∈ (s.render literal).toList) :
    ∃ p : Pointed, p.Proper ∧ (s.render literal).toList = p.text ∧ p.toRat = s.toRat := by
  unfold Scientific.render at point ⊢
  simp only at point ⊢
  split at point
  next positional =>
      rw [if_pos positional]
      exact exists_pointed_of_positional
  next positional =>
      rw [if_neg positional]
      exact exists_pointed_of_exponent point

end Layout

/-- A double without exponent and fraction is zero. -/
theorem eq_zero_of_decode {x : Float} {negative : Bool} (decoded : decode x = .zero negative) :
    x = if negative then -0.0 else 0.0 := by
  have fields := toNat_toBits_eq x
  simp only [decode] at decoded
  by_cases last : x.toBits.toNat / hiddenBit % 2048 = 2047
  · rw [if_pos last] at decoded
    split at decoded <;> cases decoded
  rw [if_neg last] at decoded
  by_cases lowest : x.toBits.toNat / hiddenBit % 2048 = 0
  · rw [if_pos lowest] at decoded
    by_cases none : x.toBits.toNat % hiddenBit = 0
    · rw [if_pos none] at decoded
      cases decoded
      rw [lowest, none, Nat.zero_mul] at fields
      -- With the lowest exponent and no fraction, only the sign is left of the bits.
      apply float_ext
      rw [fields]
      split
      · rfl
      · rfl
    · rw [if_neg none] at decoded
      cases decoded
  · rw [if_neg lowest] at decoded
    cases decoded

/-- The literal of a finite double is read as the double without its sign. -/
theorem Pointed.nearest_eq {b : Binary} (canonical : b.Canonical) {p : Pointed} (takes : b.Takes p.toRat) :
    nearest (natOfDigits (p.whole ++ p.fraction)) (p.exponent.getD 0 - p.fraction.length) =
      canonical.toFloat false := by
  refine Decimal.nearest_eq canonical (Nat.pos_of_ne_zero fun zero => ?_) takes
  -- A double takes no number below its range.
  have low := (takes.range canonical).1
  rw [Pointed.toRat, zero, Nat.cast_zero, zero_mul] at low
  exact absurd low (by norm_num)

theorem not_point_signText (negative : Bool) : '.' ∉ (signText negative).toList := by
  cases negative <;> decide

/-- A float that is shown with a point is shown as a word, behind a sign if it is negative, and is read back
from it. -/
theorem exists_word_of_point {x : Float} (point : '.' ∈ (literal.render x).toList) :
    ∃ (negative : Bool) (word : Word) (y : Float), word.kind = .float ∧
      literal.render x = signText negative ++ word.text ∧ word.LexesBefore Ends ∧
      readFloat? (word.text.toList.filter (· != '_')) = some y ∧ x = if negative then -y else y := by
  unfold Layout.render at point ⊢
  cases decoded : decode x with
  | nan =>
      rw [decoded] at point
      exact absurd point (by decide)
  | infinite negative =>
      rw [decoded, String.toList_append, List.mem_append] at point
      rcases point with sign | word
      · exact absurd sign (not_point_signText negative)
      · exact absurd word (by decide)
  | zero negative =>
      have proper : Pointed.Proper ⟨['0'], ['0'], none⟩ :=
        ⟨by simp, by simp [isDigit], by simp, by simp [isDigit]⟩
      have value := Pointed.readFloat?_eq proper
      refine ⟨negative, ⟨.float, String.ofList (Pointed.text ⟨['0'], ['0'], none⟩)⟩, 0.0, rfl, ?_,
        Pointed.lexes proper, ?_, eq_zero_of_decode decoded⟩
      · exact String.append_assoc
      · rw [String.toList_ofList, value]
        rfl
  | finite negative b =>
      obtain ⟨canonical, rfl⟩ := eq_toFloat_of_decode decoded
      simp only [decoded, String.toList_append, List.mem_append] at point
      obtain ⟨p, proper, letters, value⟩ :=
        exists_pointed (point.resolve_left (not_point_signText negative))
      -- The double takes what is shown, so it is the nearest to what is read.
      have takes : b.Takes p.toRat := value ▸ takes_shortest canonical _
      refine ⟨negative, ⟨.float, String.ofList p.text⟩, canonical.toFloat false, rfl, ?_,
        Pointed.lexes proper, ?_, ?_⟩
      · rw [← letters, String.ofList_toList]
      · rw [String.toList_ofList, Pointed.readFloat?_eq proper, Pointed.nearest_eq canonical takes]
      · cases negative
        · rfl
        · exact canonical.neg_toFloat.symm

end Decimal
end Clausal
