import Clausal.Proofs.Syntax.Grammar

/-!
# The longest match of a word

Of all token rules the one that takes the most characters wins.  `longest?_eq` turns this into a
comparison of rules, and `length?_cons` says which rules can apply at a given first character.

No rule takes a space outside quotes, so the match of a word with a space behind it (`Apart`) cannot
reach beyond the word, and every kind of word is settled by the few rules that begin like it.  Words of
letters and digits need less: no character behind them may go on with them (`Ends`).  A quoted text is
closed by its own last quote, and reading its body gives the text.
-/

namespace Clausal
namespace Token

open Decimal (isDigit)

/-! ## The longest match -/

section Longest

variable {text : List Char} {kind : Kind} {n : Nat}

/-- Rules that take no more than the best match so far do not replace it. -/
theorem foldl_better_of_le {kinds : List Kind}
    (h : ∀ other ∈ kinds, ∀ m, other.length? text = some m → m ≤ n) :
    kinds.foldl (fun best kind => better best ((kind.length? text).map (kind, ·)))
      (some (kind, n)) = some (kind, n) := by
  induction kinds with
  | nil => rfl
  | cons other kinds ih =>
      have keep : better (some (kind, n)) ((other.length? text).map (other, ·)) =
          some (kind, n) := by
        cases taken : other.length? text with
        | none => rfl
        | some m =>
            have bound := h other List.mem_cons_self m taken
            simp [better, Nat.not_lt.mpr bound]
      rw [List.foldl_cons, keep]
      exact ih fun other member => h other (List.mem_cons_of_mem _ member)

/-- Rules that take less than `n` characters leave a best match of less than `n`. -/
theorem foldl_better_lt {kinds : List Kind} {best : Option (Kind × Nat)}
    (before : ∀ found ∈ best, found.2 < n)
    (h : ∀ other ∈ kinds, ∀ m, other.length? text = some m → m < n) :
    ∀ found ∈ kinds.foldl (fun best kind => better best ((kind.length? text).map (kind, ·))) best,
      found.2 < n := by
  induction kinds generalizing best with
  | nil => exact before
  | cons other kinds ih =>
      rw [List.foldl_cons]
      -- The better one of two matches is below `n` if both are.
      refine ih ?_ fun other member => h other (List.mem_cons_of_mem _ member)
      have bound := h other List.mem_cons_self
      cases taken : other.length? text with
      | none =>
          cases best with
          | none => nofun
          | some found => simpa [better] using before
      | some m =>
          have small : m < n := bound m taken
          cases best with
          | none => simp [better, small]
          | some found =>
              have smaller : found.2 < n := before found rfl
              simp only [better, Option.map_some]
              split <;> simp [small, smaller]

theorem mem_all (kind : Kind) : kind ∈ Kind.all := by
  cases kind <;> decide

theorem nodup_all : Kind.all.Nodup := by
  decide

/-- A rule wins when no other takes more, and none but the last rule takes equally many. -/
theorem longest?_eq (taken : kind.length? text = some n)
    (most : ∀ other m, other.length? text = some m →
      m < n ∨ m = n ∧ (other = kind ∨ other = .identifier)) :
    longest? text = some (kind, n) := by
  obtain ⟨before, after, split, fresh⟩ := List.eq_append_cons_of_mem (mem_all kind)
  -- The last rule stands behind the winning one, or is it.
  have notLast : Kind.identifier ∉ before := by
    intro early
    have ends : (before ++ kind :: after).getLast? = some Kind.identifier := by
      rw [← split]
      rfl
    rw [List.getLast?_append, List.getLast?_eq_some_getLast (List.cons_ne_nil _ _)] at ends
    have last : Kind.identifier ∈ kind :: after := by
      rw [← Option.some.inj ends]
      exact List.getLast_mem _
    have nodup := split ▸ nodup_all
    exact (List.nodup_append.mp nodup).2.2 _ early _ last rfl
  have smaller : ∀ other ∈ before, ∀ m, other.length? text = some m → m < n := by
    intro other member m found
    rcases most other m found with less | ⟨-, rfl | rfl⟩
    · exact less
    · exact absurd member fresh
    · exact absurd member notLast
  have atMost : ∀ other ∈ after, ∀ m, other.length? text = some m → m ≤ n := by
    intro other _ m found
    rcases most other m found with less | ⟨equal, -⟩ <;> omega
  unfold longest?
  rw [split, List.foldl_append, List.foldl_cons, taken]
  have previous := foldl_better_lt (show ∀ found ∈ (none : Option (Kind × Nat)), found.2 < n from nofun)
    smaller
  generalize List.foldl _ none before = best at previous
  have won : better best ((some n).map (kind, ·)) = some (kind, n) := by
    cases best with
    | none => rfl
    | some found => simp [better, previous found rfl]
  rw [won]
  exact foldl_better_of_le atMost

/-- The better of two matches is one of them. -/
theorem mem_of_mem_better {a b : Option (Kind × Nat)} {found : Kind × Nat} (h : found ∈ better a b) :
    found ∈ a ∨ found ∈ b := by
  unfold better at h
  split at h
  · exact .inr h
  · exact .inl h
  · split at h
    · exact .inr h
    · exact .inl h

/-- The better of two matches is as long as each of them. -/
theorem exists_better_le {a b : Option (Kind × Nat)} {m : Nat}
    (h : (∃ found ∈ a, m ≤ found.2) ∨ ∃ found ∈ b, m ≤ found.2) : ∃ found ∈ better a b, m ≤ found.2 := by
  cases a with
  | none => simpa [better] using h
  | some first =>
      cases b with
      | none => simpa [better] using h
      | some second =>
          have either : m ≤ first.2 ∨ m ≤ second.2 := by simpa using h
          simp only [better]
          split
          next less => exact ⟨second, rfl, by omega⟩
          next => exact ⟨first, rfl, by omega⟩

/-- The best match was there before, or is taken by one of the rules. -/
theorem of_mem_foldl_better {kinds : List Kind} {best : Option (Kind × Nat)} {found : Kind × Nat}
    (h : found ∈ kinds.foldl (fun best kind => better best ((kind.length? text).map (kind, ·))) best) :
    found ∈ best ∨ found.1 ∈ kinds ∧ found.1.length? text = some found.2 := by
  induction kinds generalizing best with
  | nil => exact .inl h
  | cons other kinds ih =>
      rcases ih h with better | ⟨member, taken⟩
      · rcases mem_of_mem_better better with old | new
        · exact .inl old
        · obtain ⟨m, taken, rfl⟩ := Option.map_eq_some_iff.mp new
          exact .inr ⟨List.mem_cons_self, taken⟩
      · exact .inr ⟨List.mem_cons_of_mem _ member, taken⟩

/-- The best match is as long as what was there before and as what any of the rules takes. -/
theorem exists_foldl_better_le {kinds : List Kind} {best : Option (Kind × Nat)} {m : Nat}
    (h : (∃ found ∈ best, m ≤ found.2) ∨ ∃ other ∈ kinds, other.length? text = some m) :
    ∃ found ∈ kinds.foldl (fun best kind => better best ((kind.length? text).map (kind, ·))) best,
      m ≤ found.2 := by
  induction kinds generalizing best with
  | nil => simpa using h
  | cons other kinds ih =>
      apply ih
      rcases h with before | ⟨here, member, taken⟩
      · exact .inl (exists_better_le (.inl before))
      · rcases List.mem_cons.mp member with rfl | later
        · exact .inl (exists_better_le (.inr ⟨_, by rw [taken]; rfl, Nat.le_refl m⟩))
        · exact .inr ⟨here, later, taken⟩

/-- The rule that wins takes what is taken. -/
theorem length?_of_longest? (won : longest? text = some (kind, n)) : kind.length? text = some n :=
  (@of_mem_foldl_better text Kind.all none (kind, n) won).elim nofun And.right

/-- The rule of identifiers is the last one, and wins only if it takes more than all others. -/
theorem length?_lt_of_identifier (won : longest? text = some (.identifier, n)) {other : Kind} {m : Nat}
    (differs : other ≠ .identifier) (taken : other.length? text = some m) : m < n := by
  have last : Kind.all = Kind.all.dropLast ++ [.identifier] := rfl
  unfold longest? at won
  -- The fold is cut in front of its last kind: the best match until then takes at least what any other kind
  -- takes.
  rw [last, List.foldl_append, List.foldl_cons, List.foldl_nil] at won
  have member : other ∈ Kind.all.dropLast := by
    have everywhere := last ▸ mem_all other
    simpa [differs] using everywhere
  obtain ⟨best, found, atLeast⟩ := @exists_foldl_better_le text _ none _ (.inr ⟨other, member, taken⟩)
  have earlier : best.1 ≠ .identifier := by
    rintro same
    have first := (of_mem_foldl_better found).resolve_left nofun
    have fresh : Kind.identifier ∉ Kind.all.dropLast := by decide
    exact fresh (same ▸ first.1)
  rw [found] at won
  cases own : Kind.identifier.length? text with
  | none =>
      rw [own] at won
      cases won
      exact absurd rfl earlier
  | some k =>
      simp only [own, Option.map_some, better] at won
      split at won
      next less =>
          cases won
          exact Nat.lt_of_le_of_lt atLeast less
      next =>
          cases won
          exact absurd rfl earlier

/-- A token is found by the rule that wins; only a quoted text is longer than what its rule takes. -/
theorem longest?_of_find {c : Char} {cs : List Char} {more : Nat} (found : find c cs = .token kind more) :
    ∃ n, longest? (c :: cs) = some (kind, n) ∧ (kind ≠ .quoted → more = n - 1) := by
  unfold find at found
  split at found
  · cases found
  · split at found
    · cases found
    next n won =>
        split at found
        · cases found
          exact ⟨n, won, nofun⟩
        · cases found
    next kind n _ won =>
        cases found
        exact ⟨n, won, fun _ => rfl⟩

/-- Every token of a scan was found at a character that begins one, and has its text and its span from
there. -/
theorem exists_find_of_mem_scanFrom {lines : LineTable} {text : List Char} {skip offset : Nat}
    {token : Token} (member : .ok token ∈ scanFrom lines skip offset text) :
    ∃ c cs kind more start stop, find c cs = .token kind more ∧
      token = ⟨kind, String.ofList (c :: cs.take more), lines.span start stop⟩ := by
  induction text generalizing skip offset with
  | nil => cases member
  | cons c cs ih =>
      cases skip with
      | succ skip => exact ih member
      | zero =>
          simp only [scanFrom] at member
          cases found : find c cs with
          | blank =>
              simp only [found] at member
              exact ih member
          | token kind more =>
              simp only [found, List.mem_cons, Except.ok.injEq] at member
              rcases member with rfl | later
              · exact ⟨c, cs, kind, more, _, _, found, rfl⟩
              · exact ih later
          | unclosed bytes =>
              simp only [found, List.mem_singleton] at member
              cases member
          | nothing =>
              simp only [found, List.mem_cons, reduceCtorEq, false_or] at member
              exact ih member

end Longest

/-! ## Which rules apply -/

section Rules

variable {c : Char} {cs rest : List Char} {kind : Kind} {m : Nat}

/-- What may stand behind a word: nothing, or a space. -/
def Apart (rest : List Char) : Prop := ∀ c ∈ rest.head?, c = ' '

theorem Apart.nil : Apart [] := nofun

theorem Apart.space (rest : List Char) : Apart (' ' :: rest) := by
  simp [Apart]

/-- A class of characters that leaves the space out ends at the end of a word. -/
theorem Apart.outside {p : Char → Bool} (apart : Apart rest) (space : p ' ' = false) :
    ∀ c ∈ rest.head?, p c = false := by
  intro c member
  rw [apart c member, space]

/-- What ends a word of letters and digits: nothing, or a character that neither goes on with such a
word nor, as a point before a digit, makes a float of a number. -/
def Ends (rest : List Char) : Prop :=
  ∀ c ∈ rest.head?, isNameChar c = false ∧ isNameMark c = false ∧
    (c = '.' → ∀ d ∈ rest.tail.head?, isDigit d = false)

theorem Apart.ends (apart : Apart rest) : Ends rest := by
  intro c member
  rw [apart c member]
  exact ⟨by decide, by decide, nofun⟩

/-- A word of characters in a class reaches no further than the first character outside it. -/
theorem prefix_of_outside {p : Char → Bool} {word other : List Char}
    (outside : ∀ c ∈ rest.head?, p c = false) (inside : ∀ c ∈ other, p c = true)
    (h : other <+: word ++ rest) : other <+: word := by
  rcases List.prefix_or_prefix_of_prefix h (List.prefix_append word rest) with short | ⟨more, rfl⟩
  · exact short
  · cases more with
    | nil => simp
    | cons d ds =>
        have reached : d :: ds <+: rest := (List.prefix_append_right_inj word).mp h
        obtain ⟨tail, rfl⟩ := reached
        have stops : p d = false := outside d rfl
        rw [inside d (by simp)] at stops
        cases stops

/-- A word without spaces at the start of a text reaches no further than the first space. -/
theorem Apart.prefix_word {word other : List Char} (apart : Apart rest) (solid : ' ' ∉ other)
    (h : other <+: word ++ rest) : other <+: word := by
  refine prefix_of_outside (p := (· != ' ')) (apart.outside (by decide)) ?_ h
  intro c member
  have other : c ≠ ' ' := fun same => solid (same ▸ member)
  simpa using other

/-- The fixed spellings are words without spaces. -/
theorem spelling_shape : ∀ spelling ∈ Kind.spellings,
    spelling.2.toList ≠ [] ∧ ' ' ∉ spelling.2.toList := by
  decide

/-- None of the fixed spellings begins like a number, a quoted text, a comment or a newline; those
that begin like a name are names, and a colon begins only itself. -/
theorem spelling_begin : ∀ spelling ∈ Kind.spellings,
    isBlank (spelling.2.toList.headD ' ') = false ∧ isDigit (spelling.2.toList.headD ' ') = false ∧
    spelling.2.toList.headD ' ' ∉ ['"', '#', '\n', '\r'] ∧
    (isNameStart (spelling.2.toList.headD ' ') = true →
      spelling.2.toList.tail.all isNameChar = true) ∧
    (spelling.2.toList.headD ' ' = ':' → spelling.2.toList.tail = []) := by
  decide

theorem spelling_cons {spelling : Kind × String} (member : spelling ∈ Kind.spellings)
    (word : spelling.2.toList = c :: cs) :
    isBlank c = false ∧ isDigit c = false ∧ c ∉ ['"', '#', '\n', '\r'] ∧
      (isNameStart c = true → ∀ d ∈ cs, isNameChar d = true) ∧ (c = ':' → cs = []) := by
  have shape := spelling_begin spelling member
  rw [word] at shape
  simp only [List.headD_cons, List.tail_cons, List.all_eq_true] at shape
  exact shape

theorem spelling_injective : ∀ a ∈ Kind.spellings, ∀ b ∈ Kind.spellings, a.2 = b.2 → a = b := by
  decide

theorem mem_spellings_of_lookup {text : String} (h : Kind.spellings.lookup kind = some text) :
    (kind, text) ∈ Kind.spellings := by
  obtain ⟨before, after, split, -⟩ := List.lookup_eq_some_iff.mp h
  rw [split]
  exact List.mem_append_right _ List.mem_cons_self

theorem length?_spelling : ∀ spelling ∈ Kind.spellings, ∀ text,
    spelling.1.length? text = wordLength? spelling.2.toList text := by
  simp only [Kind.spellings, List.forall_mem_cons]
  repeat' constructor
  all_goals first | (intro; rfl) | nofun

/-- A rule that applies is a fixed spelling at the start of the text, or its kind is told by the
first character. -/
theorem length?_cons (h : kind.length? (c :: cs) = some m) :
    (∃ spelling ∈ Kind.spellings, spelling.1 = kind ∧
      ∃ ds, spelling.2.toList = c :: ds ∧ c :: ds <+: c :: cs ∧ m = ds.length + 1) ∨
    kind = .newline ∧ (c = '\n' ∨ c = '\r') ∨ kind = .comment ∧ c = '#' ∨
    (kind = .integer ∨ kind = .float) ∧ isDigit c = true ∨ kind = .quoted ∧ c = '"' ∨
    kind = .atom ∧ c = ':' ∨ kind = .identifier ∧ isNameStart c = true := by
  unfold Kind.length? at h
  -- Every rule looks at its first character before it does anything else.
  split at h
  · unfold newlineLength? at h
    grind
  · unfold commentLength? at h
    grind
  · unfold integerLength? at h
    grind
  · unfold floatLength? integerLength? at h
    grind
  · obtain ⟨starts, -⟩ := wordLength?_eq_some_iff.mp h
    grind
  · unfold atomLength? at h
    grind
  · unfold nameLength? at h
    grind
  · obtain ⟨word, found, taken⟩ := Option.bind_eq_some_iff.mp h
    obtain ⟨starts, length⟩ := wordLength?_eq_some_iff.mp taken
    have member := mem_spellings_of_lookup found
    cases letters : word.toList with
    | nil => exact absurd letters (spelling_shape _ member).1
    | cons d ds =>
        rw [letters] at starts length
        obtain ⟨rfl, -⟩ := List.cons_prefix_cons.mp starts
        exact .inl ⟨(kind, word), member, rfl, ds, letters, starts, length⟩

end Rules

/-! ## The longest match of a word -/

section Words

variable {rest : List Char}

theorem not_isDigit_of_isNameStart {c : Char} (h : isNameStart c = true) : isDigit c = false := by
  simp only [isNameStart, isLetter, Bool.or_eq_true, Bool.and_eq_true, decide_eq_true_eq,
    beq_iff_eq] at h
  simp only [isDigit, Bool.and_eq_false_iff, decide_eq_false_iff_not]
  rcases h with (⟨low, -⟩ | ⟨low, -⟩) | rfl
  · exact .inr fun high => absurd (Char.le_trans low high) (by decide)
  · exact .inr fun high => absurd (Char.le_trans low high) (by decide)
  · exact .inr (by decide)

theorem not_isNameChar_of_isNameMark {c : Char} (h : isNameMark c = true) :
    isNameChar c = false := by
  simp only [isNameMark, Bool.or_eq_true, beq_iff_eq] at h
  rcases h with rfl | rfl <;> decide

theorem nameLength?_eq {word : List Char} (name : IsName word) (ends : Ends rest) :
    nameLength? (word ++ rest) = some word.length := by
  obtain ⟨first, body, mark, rfl, start, inside, single, marked⟩ := name
  -- Neither the mark nor what stands behind the name continues its body.
  have outside : ∀ c ∈ (mark ++ rest).head?, isNameChar c = false := by
    cases mark with
    | nil => exact fun c member => (ends c member).1
    | cons d ds =>
        rintro _ ⟨⟩
        exact not_isNameChar_of_isNameMark (marked d List.mem_cons_self)
  have span : spanLength isNameChar (body ++ (mark ++ rest)) = body.length :=
    spanLength_append inside outside
  simp only [nameLength?, List.cons_append, List.append_assoc, start, if_true, span,
    List.drop_left]
  cases mark with
  | nil =>
      cases rest with
      | nil => simp
      | cons d ds => simp [(ends d rfl).2.1]
  | cons d ds =>
      obtain rfl : ds = [] := List.eq_nil_of_length_eq_zero (by simpa using single)
      simp [marked d List.mem_cons_self]

/-- A spelling that begins like a name reaches no further than the name. -/
theorem prefix_of_nameStart {word : List Char} (ends : Ends rest) {spelling : Kind × String}
    (member : spelling ∈ Kind.spellings) {c : Char} {cs : List Char}
    (letters : spelling.2.toList = c :: cs) (start : isNameStart c = true)
    (h : spelling.2.toList <+: word ++ rest) : spelling.2.toList <+: word := by
  refine prefix_of_outside (fun d member => (ends d member).1) ?_ h
  obtain ⟨-, -, -, nameChars, -⟩ := spelling_cons member letters
  rw [letters, List.forall_mem_cons]
  exact ⟨by simp [isNameChar, start], nameChars start⟩

/-- A word that is a name but no keyword is taken whole, as an identifier. -/
theorem longest?_identifier {name : String} (h : IsIdentifier name) (ends : Ends rest) :
    longest? (name.toList ++ rest) = some (.identifier, name.toList.length) := by
  obtain ⟨isName, fresh⟩ := h
  have taken : Kind.identifier.length? (name.toList ++ rest) = some name.toList.length :=
    nameLength?_eq isName ends
  refine longest?_eq taken fun other m found => ?_
  obtain ⟨first, body, mark, word, start, -⟩ := isName
  rw [word, List.cons_append] at found
  rcases length?_cons found with spelled | ⟨rfl, rfl | rfl⟩ | ⟨rfl, rfl⟩ | ⟨-, digit⟩ | ⟨rfl, rfl⟩ |
    ⟨rfl, rfl⟩ | ⟨rfl, -⟩
  · obtain ⟨spelling, member, -, ds, letters, starts, rfl⟩ := spelled
    rw [← letters, ← List.cons_append, ← word] at starts
    have inside := prefix_of_nameStart ends member letters start starts
    have length : ds.length + 1 = spelling.2.toList.length := by simp [letters]
    -- A keyword as long as the name would be the name.
    rw [length]
    refine .inl (Nat.lt_of_le_of_ne inside.length_le fun same => ?_)
    exact fresh spelling member (String.toList_inj.mp (inside.eq_of_length same))
  · cases start
  · cases start
  · cases start
  · rw [not_isDigit_of_isNameStart start] at digit
    cases digit
  · cases start
  · cases start
  · rw [← List.cons_append, ← word] at found
    cases taken.symm.trans found
    exact .inr ⟨rfl, .inl rfl⟩

/-- A fixed spelling is taken whole if no longer one stands there, and no longer name or atom either;
a keyword wins over the name it would be. -/
theorem longest?_of_shortest {spelling : Kind × String} (member : spelling ∈ Kind.spellings)
    (shortest : ∀ other ∈ Kind.spellings, other.2.toList <+: spelling.2.toList ++ rest →
      other.2.toList.length ≤ spelling.2.toList.length)
    (names : isNameStart (spelling.2.toList.headD ' ') = true → Ends rest)
    (colons : spelling.2.toList.headD ' ' = ':' → nameLength? rest = none) :
    longest? (spelling.2.toList ++ rest) = some (spelling.1, spelling.2.toList.length) := by
  have taken : spelling.1.length? (spelling.2.toList ++ rest) = some spelling.2.toList.length := by
    rw [length?_spelling spelling member]
    exact wordLength?_eq_some_iff.mpr ⟨List.prefix_append _ _, rfl⟩
  refine longest?_eq taken fun other m found => ?_
  obtain ⟨c, cs, word⟩ := List.exists_cons_of_ne_nil (spelling_shape spelling member).1
  obtain ⟨-, digit, signs, nameChars, alone⟩ := spelling_cons member word
  have head : spelling.2.toList.headD ' ' = c := by simp [word]
  rw [word, List.cons_append] at found
  -- By its first character, what else applies here is another spelling, an atom or a name.
  rcases length?_cons found with spelled | ⟨-, rfl | rfl⟩ | ⟨-, rfl⟩ | ⟨-, isDigit⟩ | ⟨-, rfl⟩ |
    ⟨rfl, rfl⟩ | ⟨rfl, start⟩
  · obtain ⟨shorter, known, rfl, ds, letters, starts, rfl⟩ := spelled
    rw [← letters, ← List.cons_append, ← word] at starts
    have inside := List.prefix_of_prefix_length_le starts (List.prefix_append _ _)
      (shortest shorter known starts)
    have length : ds.length + 1 = shorter.2.toList.length := by simp [letters]
    rw [length]
    rcases Nat.lt_or_eq_of_le inside.length_le with less | same
    · exact .inl less
    · have equal := String.toList_inj.mp (inside.eq_of_length same)
      rw [spelling_injective shorter known spelling member equal]
      exact .inr ⟨rfl, .inl rfl⟩
  · simp at signs
  · simp at signs
  · simp at signs
  · rw [digit] at isDigit
    cases isDigit
  · simp at signs
  · -- A colon with no name behind it is no atom.
    have noName : Kind.atom.length? (':' :: rest) = none := by
      change (nameLength? rest).map (· + 1) = none
      rw [colons head]
      rfl
    rw [alone rfl, List.nil_append, noName] at found
    cases found
  · have isName : IsName spelling.2.toList :=
      ⟨c, cs, [], by simpa using word, start, nameChars start, by simp, by simp⟩
    have whole := nameLength?_eq isName (names (head ▸ start))
    rw [word, List.cons_append] at whole
    cases whole.symm.trans found
    exact .inr ⟨by simp [word], .inr rfl⟩

/-- A keyword or sign with a space behind it is taken whole. -/
theorem longest?_spelling {spelling : Kind × String} (member : spelling ∈ Kind.spellings)
    (apart : Apart rest) :
    longest? (spelling.2.toList ++ rest) = some (spelling.1, spelling.2.toList.length) := by
  refine longest?_of_shortest member ?_ (fun _ => apart.ends) fun _ => ?_
  · intro other known starts
    exact (apart.prefix_word (spelling_shape other known).2 starts).length_le
  · cases rest with
    | nil => rfl
    | cons d ds =>
        obtain rfl : d = ' ' := apart d rfl
        rfl

/-- A keyword is taken whole where no name could go on. -/
theorem longest?_keyword {spelling : Kind × String} (member : spelling ∈ Kind.spellings)
    (keyword : isNameStart (spelling.2.toList.headD ' ') = true) (ends : Ends rest) :
    longest? (spelling.2.toList ++ rest) = some (spelling.1, spelling.2.toList.length) := by
  refine longest?_of_shortest member ?_ (fun _ => ends) fun colon => ?_
  · intro other known starts
    obtain ⟨c, cs, word⟩ := List.exists_cons_of_ne_nil (spelling_shape spelling member).1
    obtain ⟨d, ds, letters⟩ := List.exists_cons_of_ne_nil (spelling_shape other known).1
    obtain rfl : d = c := by
      have first := starts
      rw [word, letters, List.cons_append] at first
      exact (List.cons_prefix_cons.mp first).1
    rw [word] at keyword
    exact (prefix_of_nameStart ends known letters keyword starts).length_le
  · rw [colon] at keyword
    cases keyword

/-- The delimiters and the point; no longer sign begins with one of them. -/
def isClosedSign (kind : Kind) : Bool :=
  kind == .leftParen || kind == .rightParen || kind == .leftBracket || kind == .rightBracket ||
    kind == .leftBrace || kind == .rightBrace || kind == .percentBrace || kind == .dot

theorem closedSign_shape : ∀ spelling ∈ Kind.spellings, isClosedSign spelling.1 = true →
    isNameStart (spelling.2.toList.headD ' ') = false ∧ spelling.2.toList.headD ' ' ≠ ':' ∧
    ∀ other ∈ Kind.spellings, other.2.toList.headD ' ' = spelling.2.toList.headD ' ' →
      other.2.toList.length ≤ spelling.2.toList.length := by
  decide

/-- A delimiter is taken whatever follows. -/
theorem longest?_closedSign {spelling : Kind × String} (member : spelling ∈ Kind.spellings)
    (closed : isClosedSign spelling.1 = true) :
    longest? (spelling.2.toList ++ rest) = some (spelling.1, spelling.2.toList.length) := by
  obtain ⟨noName, noColon, shortest⟩ := closedSign_shape spelling member closed
  refine longest?_of_shortest member ?_ (fun start => ?_) fun colon => absurd colon noColon
  · intro other known starts
    refine shortest other known ?_
    obtain ⟨c, cs, word⟩ := List.exists_cons_of_ne_nil (spelling_shape spelling member).1
    obtain ⟨d, ds, letters⟩ := List.exists_cons_of_ne_nil (spelling_shape other known).1
    rw [word, letters, List.cons_append] at starts
    simpa [word, letters] using (List.cons_prefix_cons.mp starts).1
  · rw [noName] at start
    cases start

/-- A minus sign is taken alone unless it is part of an arrow. -/
theorem longest?_minus (noArrow : ∀ c ∈ rest.head?, c ≠ '>') :
    longest? ("-".toList ++ rest) = some (.minus, "-".toList.length) := by
  have signs : ∀ other ∈ Kind.spellings, other.2.toList.headD ' ' = '-' →
      other.2.toList.length ≤ 1 ∨ other.2.toList = ['-', '>'] := by
    decide
  have member : (Kind.minus, "-") ∈ Kind.spellings := by decide
  refine @longest?_of_shortest rest (.minus, "-") member ?_ (fun start => ?_) fun colon => ?_
  · intro other known starts
    obtain ⟨d, ds, letters⟩ := List.exists_cons_of_ne_nil (spelling_shape other known).1
    have first : d :: ds <+: '-' :: rest := letters ▸ starts
    obtain ⟨rfl, tail⟩ := List.cons_prefix_cons.mp first
    -- Of the signs that begin like this, only the arrow is longer.
    rcases signs other known (by simp [letters]) with short | long
    · exact short
    · obtain rfl : ds = ['>'] := by simpa [letters] using long
      obtain ⟨more, rfl⟩ := tail
      exact absurd rfl (noArrow '>' rfl)
  · cases start
  · cases colon

/-- A name behind a colon is taken whole, as an atom. -/
theorem longest?_atom {name : List Char} (h : IsName name) (ends : Ends rest) :
    longest? (':' :: name ++ rest) = some (.atom, name.length + 1) := by
  have taken : Kind.atom.length? (':' :: name ++ rest) = some (name.length + 1) := by
    change (nameLength? (name ++ rest)).map (· + 1) = _
    rw [nameLength?_eq h ends]
    rfl
  refine longest?_eq taken fun other m found => ?_
  rw [List.cons_append] at found
  rcases length?_cons found with spelled | ⟨-, same | same⟩ | ⟨-, same⟩ | ⟨-, digit⟩ | ⟨-, same⟩ |
    ⟨rfl, -⟩ | ⟨-, start⟩
  · -- The colon alone is shorter than the atom.
    obtain ⟨spelling, member, -, ds, letters, -, rfl⟩ := spelled
    obtain ⟨-, -, -, -, alone⟩ := spelling_cons member letters
    obtain ⟨first, body, mark, rfl, -⟩ := h
    exact .inl (by simp [alone rfl])
  · cases same
  · cases same
  · cases same
  · cases digit
  · cases same
  · cases taken.symm.trans found
    exact .inr ⟨rfl, .inl rfl⟩
  · cases start

/-- Digits are taken up to what ends them. -/
theorem digitsLength_eq {digits : List Char} (h : ∀ c ∈ digits, isDigit c = true)
    (ends : ∀ c ∈ rest.head?, isNameChar c = false) :
    digitsLength (digits ++ rest) = digits.length := by
  induction digits with
  | nil =>
      cases rest with
      | nil => rfl
      | cons d ds =>
          have outside := ends d rfl
          simp only [isNameChar, isNameStart, Bool.or_eq_false_iff] at outside
          cases ds <;> simp [digitsLength, outside]
  | cons d ds ih =>
      have digit := h d List.mem_cons_self
      have tail := ih fun c member => h c (List.mem_cons_of_mem d member)
      cases shape : ds ++ rest with
      | nil =>
          obtain ⟨rfl, rfl⟩ := List.append_eq_nil_iff.mp shape
          simp [digitsLength, digit]
      | cons e es =>
          rw [shape] at tail
          simp [digitsLength, shape, digit, tail]

/-- A row of digits is taken whole, as an integer. -/
theorem longest?_digits {digits : List Char} (nonempty : digits ≠ [])
    (h : ∀ c ∈ digits, isDigit c = true) (ends : Ends rest) :
    longest? (digits ++ rest) = some (.integer, digits.length) := by
  obtain ⟨d, ds, rfl⟩ := List.exists_cons_of_ne_nil nonempty
  have digit := h d List.mem_cons_self
  have further := digitsLength_eq (fun c member => h c (List.mem_cons_of_mem d member))
    fun c member => (ends c member).1
  have taken : integerLength? (d :: ds ++ rest) = some (d :: ds).length := by
    simp [integerLength?, digit, further]
  refine longest?_eq taken fun other m found => ?_
  rw [List.cons_append] at found
  rcases length?_cons found with spelled | ⟨-, rfl | rfl⟩ | ⟨-, rfl⟩ | ⟨rfl | rfl, -⟩ | ⟨-, rfl⟩ |
    ⟨-, rfl⟩ | ⟨-, start⟩
  · -- No fixed word begins with a digit.
    obtain ⟨spelling, member, -, ds, letters, -, -⟩ := spelled
    rw [(spelling_cons member letters).2.1] at digit
    cases digit
  · cases digit
  · cases digit
  · cases digit
  · cases taken.symm.trans found
    exact .inr ⟨rfl, .inl rfl⟩
  · -- A float needs a point behind its first digits.
    have none : Kind.float.length? (d :: (ds ++ rest)) = none := by
      change floatLength? (d :: ds ++ rest) = none
      rw [floatLength?, taken]
      simp only [List.drop_left]
      cases rest with
      | nil => rfl
      | cons e es =>
          split
          next same =>
              -- A point is not followed by a digit here.
              obtain ⟨rfl, rfl⟩ := List.cons.inj same
              have noDigit : spanLength isDigit es = 0 :=
                @spanLength_append isDigit [] es nofun ((ends '.' rfl).2.2 rfl)
              simp only [noDigit]
          next => rfl
    rw [none] at found
    cases found
  · cases digit
  · cases digit
  · rw [not_isDigit_of_isNameStart start] at digit
    cases digit

/-- A quote begins a quoted text whatever follows. -/
theorem longest?_quote (cs : List Char) : longest? ('"' :: cs) = some (.quoted, 1) := by
  have taken : Kind.quoted.length? ('"' :: cs) = some 1 := by
    change wordLength? ['"'] ('"' :: cs) = some 1
    simp [wordLength?]
  refine longest?_eq taken fun other m found => ?_
  rcases length?_cons found with spelled | ⟨-, same | same⟩ | ⟨-, same⟩ | ⟨-, digit⟩ | ⟨rfl, -⟩ |
    ⟨-, same⟩ | ⟨-, start⟩
  · obtain ⟨spelling, member, -, ds, letters, -, -⟩ := spelled
    exact absurd (spelling_cons member letters).2.2.1 (by simp)
  · cases same
  · cases same
  · cases same
  · cases digit
  · cases taken.symm.trans found
    exact .inr ⟨rfl, .inl rfl⟩
  · cases same
  · cases start

/-! ## Quoted texts -/

/-- The search for the closing quote passes over an escaped character. -/
theorem closingFrom_escape (c : Char) (count bytes settled : Nat) (cs : List Char) :
    ∃ bytes' settled', closingFrom count bytes settled (escape c ++ cs) =
      closingFrom (count + (escape c).length) bytes' settled' cs := by
  unfold escape
  split
  case h_7 backslash quote newline _ _ _ =>
      refine ⟨bytes + c.utf8Size, settled, ?_⟩
      simp only [List.cons_append, List.nil_append, List.length_singleton]
      rw [closingFrom]
      · exact quote
      · exact newline
      · intro same _
        exact backslash same
      · intro _ _ same _
        exact backslash same
  all_goals exact ⟨_, _, rfl⟩

/-- A written text closes at its last quote. -/
theorem closing_escaped (text rest : List Char) :
    closing (text.flatMap escape ++ '"' :: rest) = .found ((text.flatMap escape).length + 1) := by
  -- The counters change from step to step, so the induction is for all of them.
  have general : ∀ count bytes settled,
      closingFrom count bytes settled (text.flatMap escape ++ '"' :: rest) =
        .found (count + (text.flatMap escape).length + 1) := by
    induction text with
    | nil =>
        intro count bytes settled
        rfl
    | cons c cs ih =>
        intro count bytes settled
        obtain ⟨bytes', settled', step⟩ :=
          closingFrom_escape c count bytes settled (cs.flatMap escape ++ '"' :: rest)
        rw [List.flatMap_cons, List.append_assoc, step, ih, List.length_append]
        congr 2
        omega
  rw [closing, general]
  simp

theorem unescapeBody_escape (c : Char) (cs : List Char) :
    unescapeBody (escape c ++ cs) = (unescapeBody cs).map (c :: ·) := by
  unfold escape
  split
  case h_7 backslash _ _ _ _ _ =>
      rw [List.cons_append, List.nil_append, unescapeBody]
      · intro same _
        exact backslash same
      · intro _ _ same _
        exact backslash same
  all_goals rfl

/-- Reading a written text gives it back. -/
theorem unescapeBody_escaped (text : List Char) :
    unescapeBody (text.flatMap escape) = .ok text := by
  induction text with
  | nil => rfl
  | cons c cs ih =>
      rw [List.flatMap_cons, unescapeBody_escape, ih]
      rfl

theorem unescape_quoted (text : String) :
    unescape (Surface.Word.quoted text).text = .ok text := by
  have body : literalBody ('"' :: (text.toList.flatMap escape ++ ['"'])) =
      text.toList.flatMap escape := by
    simp [literalBody]
  simp [unescape, Surface.Word.quoted, body, unescapeBody_escaped, Except.map]

end Words

end Token
end Clausal
