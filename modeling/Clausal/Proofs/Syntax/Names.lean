import Clausal.Proofs.Syntax.LongestMatch

/-!
# The names of tokens

A token of the kind of identifiers is found only where no keyword takes as much, and an atom only where a
name stands behind its colon.  So the tokens of a text have names that can be written (`Token.Named`).

Main statement: `Token.named_of_mem_scanFrom`.
-/

namespace Clausal

open Token (Kind IsName IsIdentifier)

namespace Token

/-- A token whose name, if it has one, can be written. -/
def Named (token : Token) : Prop :=
  (token.kind = .identifier → IsIdentifier token.text) ∧
    (token.kind = .atom → IsName (token.text.toList.drop 1))

/-- What the rule of names takes is a name. -/
theorem exists_name {text : List Char} {n : Nat} (taken : nameLength? text = some n) :
    ∃ name rest, text = name ++ rest ∧ name.length = n ∧ IsName name := by
  cases text with
  | nil => cases taken
  | cons c cs =>
      simp only [nameLength?] at taken
      split at taken
      next start =>
          have inside : ∀ d ∈ cs.take (spanLength isNameChar cs), isNameChar d = true :=
            fun d => of_mem_take_spanLength
          have length : (cs.take (spanLength isNameChar cs)).length = spanLength isNameChar cs :=
            List.length_take_of_le (spanLength_le _ _)
          have split := List.take_append_drop (spanLength isNameChar cs) cs
          generalize spanLength isNameChar cs = body at taken inside length split
          generalize cs.take body = front at inside length split
          subst length
          -- Without a mark the name ends behind its letters.
          have unmarked : ∃ name rest, c :: cs = name ++ rest ∧ name.length = front.length + 1 ∧
              IsName name :=
            ⟨c :: front, cs.drop front.length, by simp [split], rfl,
              c, front, [], by simp, start, inside, Nat.zero_le 1, List.forall_mem_nil _⟩
          cases behind : cs.drop front.length with
          | nil =>
              rw [behind] at taken
              cases taken
              exact unmarked
          | cons mark rest =>
              simp only [behind, Option.some.injEq] at taken split
              subst taken
              by_cases marked : isNameMark mark = true
              · rw [if_pos marked]
                exact ⟨c :: (front ++ [mark]), rest, by simp [← split], by simp,
                  c, front, [mark], rfl, start, inside, Nat.le_refl 1, by simpa using marked⟩
              · rw [if_neg marked]
                exact unmarked
      next => cases taken

theorem not_spelled_name {spelling : Kind × String} (member : spelling ∈ Kind.spellings) :
    spelling.1 ≠ .identifier ∧ spelling.1 ≠ .atom := by
  revert spelling
  decide

/-- What is found has the name that its rule takes; a keyword would have been found in the place of an
identifier. -/
theorem named_of_find {c : Char} {cs : List Char} {kind : Kind} {more : Nat} (span : Span)
    (found : find c cs = .token kind more) : Named ⟨kind, String.ofList (c :: cs.take more), span⟩ := by
  obtain ⟨n, won, length⟩ := longest?_of_find found
  have taken := length?_of_longest? won
  constructor
  -- A keyword with the letters of an identifier would have taken as much, and won.
  · rintro rfl
    obtain ⟨name, rest, split, rfl, isName⟩ := exists_name (show nameLength? (c :: cs) = _ from taken)
    have positive : 0 < name.length := by
      obtain ⟨first, body, mark, rfl, -⟩ := isName
      exact Nat.succ_pos _
    have text : c :: cs.take more = name := by
      rw [length nofun, ← List.take_succ_cons, Nat.sub_add_cancel positive, split, List.take_left]
    simp only [text]
    refine ⟨by simpa using isName, fun spelling member same => ?_⟩
    have also : spelling.1.length? (c :: cs) = some name.length := by
      rw [length?_spelling spelling member, wordLength?_eq_some_iff, same, String.toList_ofList, split]
      exact ⟨List.prefix_append _ _, rfl⟩
    have less := length?_lt_of_identifier won (not_spelled_name member).1 also
    exact Nat.lt_irrefl _ less
  · rintro rfl
    rcases length?_cons taken with ⟨spelling, member, same, -⟩ | ⟨⟨⟩, -⟩ | ⟨⟨⟩, -⟩ | ⟨⟨⟨⟩⟩ | ⟨⟨⟩⟩, -⟩ |
      ⟨⟨⟩, -⟩ | ⟨-, rfl⟩ | ⟨⟨⟩, -⟩
    · exact absurd same (not_spelled_name member).2
    · obtain ⟨k, below, rfl⟩ := Option.map_eq_some_iff.mp taken
      obtain ⟨name, rest, rfl, rfl, isName⟩ := exists_name below
      rw [length nofun]
      simpa using isName

theorem named_of_mem_scanFrom {lines : LineTable} {text : List Char} {skip offset : Nat} {token : Token}
    (member : .ok token ∈ scanFrom lines skip offset text) : token.Named := by
  obtain ⟨c, cs, kind, more, start, stop, found, rfl⟩ := exists_find_of_mem_scanFrom member
  exact named_of_find _ found

end Token

end Clausal
