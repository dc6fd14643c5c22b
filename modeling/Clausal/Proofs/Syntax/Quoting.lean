import Clausal.Proofs.Syntax.Segmentation
import Mathlib.Algebra.Group.Nat.Even
import Mathlib.Data.List.DropRight

/-!
# Quoted texts are read back as they were written

Two traversals go over a quoted text, one for its end and one for what it stands for.  Both pair a backslash
with the character behind it, counting from the opening quote.  Which backslashes they leave unpaired can
be seen without them: the run of backslashes that ends a text has one left over exactly when its length is
odd (`Paired`), because whatever stands in front of a run is no backslash and so is not half a pair.

From this follows where a quoted token ends and which of its characters are escaped (`Escaped`), and that
decoding fails only at an escape that is not known.

Main statement: `quoted_texts_round_trip`.
-/

namespace Clausal
namespace Token

open Source (byteLength)
open Surface (Word)

/-! ## Pairs of backslashes -/

/-- No unpaired backslash stands at the end of a text: the run of backslashes there has even length. -/
def Paired (text : List Char) : Prop := Even (text.rtakeWhile (· == '\\')).length

/-- A backslash of a text that is in no pair with the one before it stands in front of `c`. -/
def Escaped (text : List Char) (c : Char) : Prop :=
  ∃ front behind, text = front ++ '\\' :: c :: behind ∧ Paired front

/-- The characters that mean something behind a backslash. -/
def knownEscapes : List Char := ['n', 't', 'r', '0', '\\', '"']

section Pairs

variable {front text body : List Char} {c d : Char}

theorem paired_nil : Paired [] := Even.zero

theorem not_paired_backslash : ¬ Paired ['\\'] := by
  simp [Paired, List.rtakeWhile]

theorem paired_single (plain : c ≠ '\\') : Paired [c] := by
  simp [Paired, List.rtakeWhile, plain]

theorem paired_escape (c : Char) : Paired ['\\', c] := by
  by_cases backslash : c = '\\'
  · subst backslash
    exact ⟨1, rfl⟩
  · simp [Paired, List.rtakeWhile, backslash]

/-- Behind a text whose backslashes are paired, pairing begins anew. -/
theorem Paired.append_iff (paired : Paired front) : Paired (front ++ text) ↔ Paired text := by
  simp only [Paired, List.rtakeWhile, List.reverse_append, List.takeWhile_append, List.length_reverse]
    at paired ⊢
  split
  next all =>
      -- The text is one run of backslashes and goes on with the run that ends the front.
      rw [List.length_append, Nat.even_add, all]
      simp [paired]
  next => rfl

/-- What is escaped in a text does not depend on what stands in front of it. -/
theorem Escaped.append (paired : Paired front) (escaped : Escaped text c) : Escaped (front ++ text) c := by
  rcases escaped with ⟨before, behind, rfl, settled⟩
  exact ⟨front ++ before, behind, by rw [List.append_assoc], paired.append_iff.mpr settled⟩

theorem escaped_plain_iff (plain : d ≠ '\\') : Escaped (d :: text) c ↔ Escaped text c := by
  constructor
  · rintro ⟨front, behind, split, paired⟩
    cases front with
    | nil => exact absurd (List.cons.inj split).1 plain
    | cons e front =>
        rcases List.cons.inj split with ⟨rfl, rfl⟩
        exact ⟨front, behind, rfl, (paired_single plain).append_iff.mp paired⟩
  · exact Escaped.append (paired_single plain)

theorem escaped_escape_iff : Escaped ('\\' :: d :: text) c ↔ c = d ∨ Escaped text c := by
  constructor
  · rintro ⟨front, behind, split, paired⟩
    -- The escape begins here or behind the pair: in the middle of the pair its backslash stands alone.
    match front with
    | [] =>
        simp only [List.nil_append, List.cons.injEq] at split
        exact .inl split.2.1.symm
    | [e] =>
        simp only [List.cons_append, List.nil_append, List.cons.injEq] at split
        rw [← split.1] at paired
        exact absurd paired not_paired_backslash
    | e :: e' :: front =>
        simp only [List.cons_append, List.cons.injEq] at split
        rcases split with ⟨rfl, rfl, rfl⟩
        exact .inr ⟨front, behind, rfl, (paired_escape d).append_iff.mp paired⟩
  · rintro (rfl | escaped)
    · exact ⟨[], text, rfl, paired_nil⟩
    · exact escaped.append (paired_escape d)

end Pairs

/-! ## Bodies -/

section Bodies

variable {body front behind : List Char} {c : Char}

/-- What may stand between two quotes, character by character. -/
inductive Body : List Char → Prop where
  | nil : Body []
  | plain {c : Char} {body : List Char} (quote : c ≠ '"') (backslash : c ≠ '\\') (later : Body body) :
      Body (c :: body)
  | escape (c : Char) {body : List Char} (later : Body body) : Body ('\\' :: c :: body)

theorem body_of_mem (inside : body ∈ quotedBody) : Body body := by
  obtain ⟨parts, rfl, each⟩ := Language.mem_kstar.mp inside
  clear inside
  induction parts with
  | nil => exact .nil
  | cons part parts ih =>
      obtain ⟨first, others⟩ := List.forall_mem_cons.mp each
      rcases first with ⟨c, ordinary, rfl⟩ | ⟨_, rfl, _, ⟨c, -, rfl⟩, rfl⟩
      · simp only [Bool.and_eq_true, bne_iff_ne] at ordinary
        exact .plain ordinary.1.1 ordinary.2 (ih others)
      · exact .escape c (ih others)

theorem Body.paired (inside : Body body) : Paired body := by
  induction inside with
  | nil => exact paired_nil
  | plain _ backslash _ ih => exact (paired_single backslash).append_iff.mpr ih
  | escape c _ ih => exact (paired_escape c).append_iff.mpr ih

/-- A quote in a body is escaped. -/
theorem Body.not_paired_before_quote (inside : Body body) (split : body = front ++ '"' :: behind) :
    ¬ Paired front := by
  induction inside generalizing front with
  | nil => simp at split
  | plain quote backslash _ ih =>
      cases front with
      | nil => exact absurd (List.cons.inj split).1 quote
      | cons d front =>
          rcases List.cons.inj split with ⟨rfl, rest⟩
          intro paired
          exact ih rest ((paired_single backslash).append_iff.mp paired)
  | escape c _ ih =>
      -- The quote is the character of the pair, or stands behind the pair.
      match front with
      | [] => cases split
      | [d] =>
          rw [← (List.cons.inj split).1]
          exact not_paired_backslash
      | d :: e :: front =>
          simp only [List.cons_append, List.cons.injEq] at split
          rcases split with ⟨rfl, rfl, rest⟩
          intro paired
          exact ih rest ((paired_escape c).append_iff.mp paired)

theorem escaped?_eq_none_iff : escaped? c = none ↔ c ∉ knownEscapes := by
  unfold escaped? knownEscapes
  split <;> simp_all

/-- What decoding a body gives: a text when all escapes are known, and otherwise one that is not. -/
def Decodes (body : List Char) (decoded : Except String (List Char)) : Prop :=
  (∃ text, decoded = .ok text) ∧ (∀ c, Escaped body c → c ∈ knownEscapes) ∨
    ∃ c, Escaped body c ∧ c ∉ knownEscapes ∧ decoded = .error (String.ofList ['\\', c])

/-- A piece in front of a body whose own escape, if it is one, is known. -/
theorem Decodes.append {piece : List Char} {decoded : Except String (List Char)}
    (decodes : Decodes body decoded) (paired : Paired piece) (d : Char)
    (known : ∀ c, Escaped (piece ++ body) c → c ∈ knownEscapes ∨ Escaped body c) :
    Decodes (piece ++ body) (decoded.map (d :: ·)) := by
  rcases decodes with ⟨⟨text, rfl⟩, all⟩ | ⟨c, escaped, unknown, rfl⟩
  · refine .inl ⟨⟨_, rfl⟩, ?_⟩
    intro c escaped
    exact (known c escaped).elim id (all c)
  · -- The fault behind the piece is the fault of the whole.
    exact .inr ⟨c, escaped.append paired, unknown, rfl⟩

theorem Body.decodes (inside : Body body) : Decodes body (unescapeBody body) := by
  induction inside with
  | nil =>
      refine .inl ⟨⟨_, rfl⟩, ?_⟩
      rintro c ⟨front, behind, split, -⟩
      simp at split
  | @plain c body _ backslash _ ih =>
      have step : unescapeBody (c :: body) = (unescapeBody body).map (c :: ·) := by
        rw [unescapeBody]
        · exact fun same _ => backslash same
        · exact fun _ _ same _ => backslash same
      rw [step]
      exact ih.append (paired_single backslash) c fun _ escaped => .inr ((escaped_plain_iff backslash).mp escaped)
  | escape c _ ih =>
      rw [unescapeBody]
      cases meaning : escaped? c with
      | none =>
          exact .inr ⟨c, escaped_escape_iff.mpr (.inl rfl), escaped?_eq_none_iff.mp meaning, rfl⟩
      | some d =>
          have known : c ∈ knownEscapes := by
            by_contra unknown
            rw [escaped?_eq_none_iff.mpr unknown] at meaning
            cases meaning
          refine ih.append (paired_escape c) d ?_
          intro e escaped
          rcases escaped_escape_iff.mp escaped with rfl | later
          · exact .inl known
          · exact .inr later

end Bodies

/-! ## Tokens -/

/-- A quoted token of a source text runs from a quote to the first quote behind it that no unpaired backslash
precedes, and `body` is what stands between the two. -/
structure RunsToQuote (source : List Char) (token : Token) (body : List Char) : Prop where
  text : token.text.toList = '"' :: (body ++ ['"'])
  place : ∃ before rest, source = before ++ '"' :: (body ++ '"' :: rest) ∧
    token.span.start = byteLength before ∧
    token.span.stop = byteLength (before ++ '"' :: (body ++ ['"']))
  closes : Paired body
  first : ∀ front behind, body = front ++ '"' :: behind → ¬ Paired front

/-- A written text is the first token wherever a source text begins with it. -/
theorem scan_quoted (text : String) (rest : List Char) :
    ∃ later, scan ((Word.quoted text).text.toList ++ rest) =
      .ok ⟨.quoted, (Word.quoted text).text,
        (LineTable.ofText ((Word.quoted text).text.toList ++ rest)).span 0
          (byteLength (Word.quoted text).text.toList)⟩ :: later := by
  rcases Word.lexes_quoted text with ⟨c, cs, letters, found⟩
  have spelled : String.ofList (c :: cs) = (Word.quoted text).text := by
    rw [← letters, String.ofList_toList]
  rw [letters, scan, List.cons_append, scanFrom_token 0 (found rest trivial), Nat.zero_add, spelled]
  exact ⟨_, rfl⟩

/-- Every quoted token has a body, and its text is decoded to what the body stands for. -/
theorem runsToQuote {source : List Char} {token : Token} (member : .ok token ∈ scan source)
    (quoted : token.kind = .quoted) : ∃ body, Body body ∧ RunsToQuote source token body := by
  cases (scan_faithful source).stands _ member with
  | @token before rest _ split start stop longest =>
      rw [Longest, if_pos quoted] at longest
      rcases mem_quotedRule.mp longest.1 with ⟨body, member, text⟩
      have inside := body_of_mem member
      refine ⟨body, inside, text, ⟨before, rest, ?_, start, ?_⟩, inside.paired, ?_⟩
      · rw [split, text]
        simp
      · rw [stop, text, Source.byteLength_append]
      · exact fun _ _ => inside.not_paired_before_quote

theorem unescape_of_body {text : String} {body : List Char} (spelled : text.toList = '"' :: (body ++ ['"'])) :
    unescape text = (unescapeBody body).map String.ofList := by
  simp [unescape, spelled, literalBody]

/-- Quoted texts are read back as they were written, and finding their end and decoding them agree.

A text that is written as a literal is the first token of every source that begins with the literal, and
is decoded to the text.  Every quoted token of a source runs to the first quote that no unpaired backslash
precedes.  Decoding it succeeds when a known character stands behind each backslash that begins an escape,
and otherwise reports one with the character behind it: a backslash with nothing behind it is never met. -/
theorem quoted_texts_round_trip :
    (∀ (text : String) (rest : List Char),
      (∃ later, scan ((Word.quoted text).text.toList ++ rest) =
        .ok ⟨.quoted, (Word.quoted text).text,
          (LineTable.ofText ((Word.quoted text).text.toList ++ rest)).span 0
            (byteLength (Word.quoted text).text.toList)⟩ :: later) ∧
      unescape (Word.quoted text).text = .ok text) ∧
    (∀ (source : List Char) (token : Token), .ok token ∈ scan source → token.kind = .quoted →
      ∃ body, RunsToQuote source token body ∧
        ((∃ text, unescape token.text = .ok text) ∧ (∀ c, Escaped body c → c ∈ knownEscapes) ∨
          ∃ c, Escaped body c ∧ c ∉ knownEscapes ∧
            unescape token.text = .error (String.ofList ['\\', c])) ∧
        unescape token.text ≠ .error "\\") := by
  refine ⟨fun text rest => ⟨scan_quoted text rest, unescape_quoted text⟩, ?_⟩
  intro source token member quoted
  rcases runsToQuote member quoted with ⟨body, inside, runs⟩
  refine ⟨body, runs, ?_⟩
  rw [unescape_of_body runs.text]
  rcases inside.decodes with ⟨⟨text, decoded⟩, known⟩ | ⟨c, escaped, unknown, refused⟩
  · rw [decoded]
    exact ⟨.inl ⟨⟨_, rfl⟩, known⟩, nofun⟩
  · rw [refused]
    refine ⟨.inr ⟨c, escaped, unknown, rfl⟩, ?_⟩
    intro dangling
    simpa using congrArg String.toList (Except.error.inj dangling)

/-- In `a "\\\"\q" b` the token ends at its last quote, and its last escape is not known. -/
theorem quoted_texts_round_trip_escapes :
    let body := ['\\', '\\', '\\', '"', '\\', 'q']
    let source := 'a' :: ' ' :: '"' :: (body ++ ['"', ' ', 'b'])
    let token : Token := ⟨.quoted, String.ofList ('"' :: (body ++ ['"'])), ⟨2, 10, 1, 3⟩⟩
    .ok token ∈ scan source ∧ token.kind = .quoted ∧ RunsToQuote source token body ∧
      unescape token.text = .error (String.ofList ['\\', 'q']) := by
  intro body source token
  have member : .ok token ∈ scan source := by
    have scanned : (scan source)[1]? = some (.ok token) := by rfl
    exact List.mem_of_getElem? scanned
  have text : token.text.toList = '"' :: (body ++ ['"']) := String.toList_ofList
  rcases quoted_texts_round_trip.2 source token member rfl with ⟨found, runs, -, -⟩
  have same : found = body := by
    have texts := runs.text.symm.trans text
    simpa only [List.cons.injEq, true_and, List.append_left_inj] using texts
  refine ⟨member, rfl, same ▸ runs, ?_⟩
  rw [unescape_of_body text]
  rfl

end Token
end Clausal
