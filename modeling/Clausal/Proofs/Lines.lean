import Mathlib.Data.List.DropRight
import Mathlib.Data.Prod.Lex
import Mathlib.Order.Monotone.Basic
import Mathlib.Tactic.SplitIfs
import Clausal.Source.Span

/-!
# Lines and columns of byte offsets

The line of an offset is counted in the newline bytes in front of it, and its column in the bytes behind the
last of them (`position_eq`).  The table of line starts holds the offsets just behind the newline bytes of a
text, each of them larger than the one before it, so that a binary search for an offset leads to its line,
whether it hits the start of a line or falls between two (`exists_start_of_searched`).  Of two offsets in one
line the later one has the larger column.

Main statement: `position_exact`.
-/

namespace Clausal

/-! ## Bytes -/

namespace Source

/-- The bytes of the UTF-8 form of a text. -/
def bytes (text : List Char) : List UInt8 := text.flatMap String.utf8EncodeChar

/-- The byte at which a line ends. -/
def newline : UInt8 := 10

/-- The bytes behind the last newline of some bytes; all of them, if there is none. -/
def lastLine (front : List UInt8) : List UInt8 := front.rtakeWhile (· ≠ newline)

section Bytes

variable {c : Char} {front behind : List UInt8}

theorem length_bytes (text : List Char) : (bytes text).length = byteLength text := by
  induction text with
  | nil => rfl
  | cons c cs ih => simpa [bytes, byteLength] using ih

/-- No other character has a newline byte in its UTF-8 form. -/
theorem newline_notMem (other : c ≠ '\n') : newline ∉ String.utf8EncodeChar c := by
  intro member
  have code : c.toNat ≠ 10 := fun same => other (Char.toNat_inj.mp same)
  simp only [String.utf8EncodeChar] at member
  split_ifs at member with short
  · have below : c.toNat ≤ 127 := short
    simp [newline, ← UInt8.toNat_inj] at member
    omega
  -- In a form of several bytes all of them are larger.
  all_goals
    simp [newline, ← UInt8.toNat_inj] at member
    omega

theorem lastLine_of_notMem (none : newline ∉ front) : lastLine front = front := by
  rw [lastLine, List.rtakeWhile_eq_self_iff]
  intro b member
  simpa using fun same : b = newline => none (same ▸ member)

/-- What stands in front of a newline does not belong to the last line. -/
theorem lastLine_append_newline : lastLine (front ++ newline :: behind) = lastLine behind := by
  induction behind using List.reverseRecOn with
  | nil => simp [lastLine]
  | append_singleton behind b ih =>
      have split : front ++ newline :: (behind ++ [b]) = (front ++ newline :: behind) ++ [b] := by simp
      rw [split]
      unfold lastLine at ih ⊢
      simp only [List.rtakeWhile_concat, ih]

end Bytes

end Source

namespace LineTable

open Source (bytes newline lastLine byteLength)

/-! ## The table -/

/-- The table of line starts over bytes: the offset just behind each newline, where the first byte is the one
at `offset`. -/
def startsBehind (offset : Nat) : List UInt8 → List Nat
  | [] => []
  | b :: bs =>
      if b = newline then (offset + 1) :: startsBehind (offset + 1) bs else startsBehind (offset + 1) bs

section Table

variable {b : UInt8} {front rest : List UInt8} {offset start k : Nat}

theorem startsBehind_newline :
    startsBehind offset (newline :: rest) = (offset + 1) :: startsBehind (offset + 1) rest := by
  rw [startsBehind, if_pos rfl]

theorem startsBehind_other (other : b ≠ newline) :
    startsBehind offset (b :: rest) = startsBehind (offset + 1) rest := by
  rw [startsBehind, if_neg other]

theorem startsBehind_append (none : newline ∉ front) :
    startsBehind offset (front ++ rest) = startsBehind (offset + front.length) rest := by
  induction front generalizing offset with
  | nil => rfl
  | cons b front ih =>
      obtain ⟨other, none⟩ := not_or.mp (mt List.mem_cons.mpr none)
      rw [List.cons_append, startsBehind_other (Ne.symm other), ih none, List.length_cons]
      congr 1
      omega

theorem startsAfter_eq (text : List Char) : startsAfter offset text = startsBehind offset (bytes text) := by
  induction text generalizing offset with
  | nil => rfl
  | cons c cs ih =>
      have split : bytes (c :: cs) = String.utf8EncodeChar c ++ bytes cs := List.flatMap_cons
      simp only [startsAfter]
      split
      next same =>
          subst same
          have form : String.utf8EncodeChar '\n' = [newline] := by decide
          rw [split, form, List.singleton_append, startsBehind_newline, ih]
          rfl
      next other =>
          rw [split, startsBehind_append (Source.newline_notMem other), String.length_utf8EncodeChar, ih]

theorem lt_of_mem_startsBehind (member : start ∈ startsBehind offset rest) : offset < start := by
  induction rest generalizing offset with
  | nil => cases member
  | cons b rest ih =>
      by_cases same : b = newline
      · subst same
        rw [startsBehind_newline] at member
        rcases List.mem_cons.mp member with rfl | later
        · exact Nat.lt_succ_self offset
        · exact Nat.lt_of_succ_lt (ih later)
      · rw [startsBehind_other same] at member
        exact Nat.lt_of_succ_lt (ih member)

theorem pairwise_startsBehind (offset : Nat) (rest : List UInt8) :
    (startsBehind offset rest).Pairwise (· < ·) := by
  induction rest generalizing offset with
  | nil => exact .nil
  | cons b rest ih =>
      by_cases same : b = newline
      · subst same
        rw [startsBehind_newline]
        exact .cons (fun _ => lt_of_mem_startsBehind) (ih _)
      · rw [startsBehind_other same]
        exact ih _

/-- No line begins within no bytes. -/
theorem takeWhile_startsBehind_self : (startsBehind offset rest).takeWhile (· ≤ offset) = [] := by
  rw [List.takeWhile_eq_nil_iff]
  intro positive
  have beyond := lt_of_mem_startsBehind (List.getElem_mem positive)
  simpa using beyond

/-- Within some bytes as many lines begin as there are newlines. -/
theorem length_takeWhile_startsBehind (rest : List UInt8) (offset k : Nat) :
    ((startsBehind offset rest).takeWhile (· ≤ offset + k)).length = (rest.take k).count newline := by
  induction rest generalizing offset k with
  | nil => simp [startsBehind]
  | cons b rest ih =>
      cases k with
      | zero => simp [takeWhile_startsBehind_self]
      | succ k =>
          have ih := ih (offset + 1) k
          rw [Nat.add_assoc, Nat.add_comm 1 k] at ih
          by_cases same : b = newline
          · subst same
            rw [startsBehind_newline, List.takeWhile_cons_of_pos (by simp), List.length_cons, ih,
              List.take_succ_cons, List.count_cons_self]
          · rw [startsBehind_other same, ih, List.take_succ_cons, List.count_cons_of_ne same]

/-- The last line that begins within some bytes, or the line that began at `start` in front of them, ends with
the bytes behind the last newline. -/
theorem getLastD_takeWhile_startsBehind (offset start : Nat) (prior : List UInt8) (none : newline ∉ prior)
    (begun : offset = start + prior.length) (inside : k ≤ rest.length) :
    ((startsBehind offset rest).takeWhile (· ≤ offset + k)).getLastD start
      + (lastLine (prior ++ rest.take k)).length = offset + k := by
  -- Byte by byte; what was read of the current line goes from `rest` to `prior`.
  induction rest generalizing offset start prior k with
  | nil =>
      obtain rfl : k = 0 := Nat.le_zero.mp inside
      simp [startsBehind, Source.lastLine_of_notMem none, begun]
  | cons b rest ih =>
      cases k with
      | zero => simp [takeWhile_startsBehind_self, Source.lastLine_of_notMem none, begun]
      | succ k =>
          have ahead : k ≤ rest.length := by simpa using inside
          have next : offset + 1 + k = offset + (k + 1) := by omega
          by_cases same : b = newline
          · subst same
            have ih := ih (offset + 1) (offset + 1) [] nofun rfl ahead
            rw [next] at ih
            rw [startsBehind_newline, List.takeWhile_cons_of_pos (by simp), List.getLastD_cons,
              List.take_succ_cons, Source.lastLine_append_newline]
            exact ih
          · have longer : newline ∉ prior ++ [b] := by simp [none, Ne.symm same]
            have ih := ih (offset + 1) start (prior ++ [b]) longer (by simp [begun]; omega) ahead
            rw [next] at ih
            rw [startsBehind_other same, List.take_succ_cons]
            simpa using ih

end Table

/-! ## Positions -/

section Positions

variable {table : LineTable} {source : List Char} {before behind : List Nat} {offset later start : Nat}

/-- The line of an offset is the number of newlines in front of it, and its column the number of bytes behind
the last of them, both counted from one. -/
theorem position_eq (inside : offset ≤ byteLength source) :
    (ofText source).position offset =
      (1 + ((bytes source).take offset).count newline,
        1 + (lastLine ((bytes source).take offset)).length) := by
  have inside : offset ≤ (bytes source).length := by rwa [Source.length_bytes]
  have lines := length_takeWhile_startsBehind (bytes source) 0 offset
  have column := getLastD_takeWhile_startsBehind 0 0 [] nofun rfl inside
  simp only [Nat.zero_add, List.nil_append] at lines column
  have begun : (ofText source).starts.takeWhile (· ≤ offset)
      = 0 :: (startsBehind 0 (bytes source)).takeWhile (· ≤ offset) := by
    rw [ofText, startsAfter_eq, List.takeWhile_cons_of_pos (by simp)]
  simp only [position, begun, List.length_cons, List.getLastD_cons, lines]
  congr 1
  · omega
  · omega

/-- The line of an offset begins at or before it. -/
theorem lineStart_le (table : LineTable) (offset : Nat) :
    (table.starts.takeWhile (· ≤ offset)).getLastD 0 ≤ offset := by
  rw [List.getLastD_eq_getLast?]
  cases last : (table.starts.takeWhile (· ≤ offset)).getLast? with
  | none => exact Nat.zero_le offset
  | some start => simpa using List.mem_takeWhile_imp (List.mem_of_getLast? last)

theorem position_line_le (table : LineTable) (offset : Nat) : (table.position offset).1 ≤ table.lineCount :=
  (List.takeWhile_prefix _).length_le

/-- A later offset has a later position: it stands in a later line, or in the same one further on. -/
theorem position_strictMono (table : LineTable) : StrictMono fun offset => toLex (table.position offset) := by
  intro offset later less
  have begun : table.starts.takeWhile (· ≤ offset)
      = (table.starts.takeWhile (· ≤ later)).takeWhile (· ≤ offset) := by
    rw [List.takeWhile_takeWhile]
    congr 1
    funext start
    simp only [decide_eq_true_eq, decide_eq_decide]
    omega
  -- The lines that have begun at the earlier offset are the first of those that have begun at the later
  -- one.
  have front : table.starts.takeWhile (· ≤ offset) <+: table.starts.takeWhile (· ≤ later) := by
    rw [begun]
    exact List.takeWhile_prefix _
  rw [Prod.Lex.toLex_lt_toLex]
  rcases Nat.lt_or_eq_of_le front.length_le with fewer | same
  · exact .inl fewer
  · refine .inr ⟨same, ?_⟩
    have start := lineStart_le table offset
    simp only [position, ← front.eq_of_length same]
    omega

/-! ## Searching -/

/-- What a binary search for an offset in an ascending table may answer: the index at which the offset stands,
or else the index at which it would have to be inserted. -/
inductive Searched (starts : List Nat) (offset : Nat) : Except Nat Nat → Prop where
  | hit {before behind : List Nat} (split : starts = before ++ offset :: behind) :
      Searched starts offset (.ok before.length)
  | miss {before behind : List Nat} (split : starts = before ++ behind)
      (below : ∀ start ∈ before, start < offset) (above : ∀ start ∈ behind, offset < start) :
      Searched starts offset (.error before.length)

/-- The line that the answer of a search stands for, counted from zero. -/
def lineFound : Except Nat Nat → Nat
  | .ok i => i
  | .error i => i - 1

theorem pairwise_starts (source : List Char) : (ofText source).starts.Pairwise (· < ·) := by
  simp only [ofText, startsAfter_eq]
  exact .cons (fun _ => lt_of_mem_startsBehind) (pairwise_startsBehind _ _)

/-- An ascending table is cut by an offset: the line of the offset is the last one that begins at or before
it. -/
theorem position_of_split (split : table.starts = before ++ start :: behind)
    (below : ∀ other ∈ before, other ≤ offset) (reached : start ≤ offset)
    (above : ∀ other ∈ behind, offset < other) :
    table.position offset = (before.length + 1, offset - start + 1) := by
  have begun : table.starts.takeWhile (· ≤ offset) = before ++ [start] := by
    have ahead : behind.takeWhile (· ≤ offset) = [] := by
      rw [List.takeWhile_eq_nil_iff]
      intro positive
      simpa using above _ (List.getElem_mem positive)
    rw [split, List.takeWhile_append_of_pos (by simpa using below),
      List.takeWhile_cons_of_pos (by simpa using reached), ahead]
  simp [position, begun]

/-- Every answer of a search leads to the line of the offset, and this line begins at or before it. -/
theorem exists_start_of_searched {answer : Except Nat Nat}
    (searched : Searched (ofText source).starts offset answer) :
    ∃ start, (ofText source).starts[lineFound answer]? = some start ∧ start ≤ offset ∧
      (ofText source).position offset = (lineFound answer + 1, offset - start + 1) := by
  cases searched with
  | @hit before behind split =>
      -- A line begins at the offset itself.
      have ascending := pairwise_starts source
      rw [split] at ascending
      obtain ⟨-, onward, below⟩ := List.pairwise_append.mp ascending
      refine ⟨offset, by simp [split, lineFound], Nat.le_refl offset, ?_⟩
      have below' : ∀ other ∈ before, other ≤ offset :=
        fun other member => Nat.le_of_lt (below other member offset List.mem_cons_self)
      exact position_of_split split below' (Nat.le_refl offset) (List.pairwise_cons.mp onward).1
  | @miss before behind split below above =>
      -- The first line begins at zero, so that there is one in front of the place of the offset.
      rcases List.eq_nil_or_concat before with rfl | ⟨front, start, rfl⟩
      · have first : 0 ∈ behind := by
          rw [List.nil_append] at split
          rw [← split]
          exact List.mem_cons_self
        exact absurd (above 0 first) (Nat.not_lt_zero offset)
      · rw [List.concat_eq_append, List.append_assoc, List.singleton_append] at split
        have reached : start ≤ offset := Nat.le_of_lt (below start (by simp))
        have below' : ∀ other ∈ front, other ≤ offset :=
          fun other member => Nat.le_of_lt (below other (by simp [member]))
        refine ⟨start, by simp [split, lineFound], reached, ?_⟩
        rw [position_of_split split below' reached above]
        simp [lineFound]

/-- A search of an ascending table has an answer. -/
theorem exists_searched {starts : List Nat} (ascending : starts.Pairwise (· < ·)) (offset : Nat) :
    ∃ answer, Searched starts offset answer := by
  induction starts with
  | nil => exact ⟨_, @Searched.miss [] offset [] [] rfl nofun nofun⟩
  | cons start starts ih =>
      obtain ⟨onward, ascending⟩ := List.pairwise_cons.mp ascending
      rcases Nat.lt_trichotomy start offset with less | rfl | greater
      · rcases ih ascending with ⟨answer, searched⟩
        cases searched with
        | @hit before behind split =>
            exact ⟨_, @Searched.hit _ offset (start :: before) behind (by simp [split])⟩
        | @miss before behind split below above =>
            refine ⟨_, @Searched.miss _ offset (start :: before) behind (by simp [split]) ?_ above⟩
            simpa using ⟨less, below⟩
      · exact ⟨_, @Searched.hit _ start [] starts rfl⟩
      · refine ⟨_, @Searched.miss _ offset [] (start :: starts) rfl nofun ?_⟩
        simpa using ⟨greater, fun other member => Nat.lt_trans greater (onward other member)⟩

end Positions

/-- An offset of a text stands in the line that the newlines in front of it count, at the column that the
bytes behind the last of them count.  The table has that line, and every answer of a search for the offset
leads to it: the line begins at or before the offset, and the column is what is left.  Positions come in the
order of their offsets, line by line, and no two offsets have the same. -/
theorem position_exact (source : List Char) :
    (∀ offset ≤ byteLength source,
      (ofText source).position offset =
        (1 + ((bytes source).take offset).count newline,
          1 + (lastLine ((bytes source).take offset)).length) ∧
      ((ofText source).position offset).1 ≤ (ofText source).lineCount ∧
      (∃ answer, Searched (ofText source).starts offset answer) ∧
      ∀ answer, Searched (ofText source).starts offset answer →
        ∃ start, (ofText source).starts[lineFound answer]? = some start ∧ start ≤ offset ∧
          (ofText source).position offset = (lineFound answer + 1, offset - start + 1)) ∧
    (StrictMono fun offset => toLex ((ofText source).position offset)) ∧
    Function.Injective (ofText source).position := by
  have increasing := position_strictMono (ofText source)
  refine ⟨fun offset inside => ⟨position_eq inside, position_line_le _ offset, ?_, ?_⟩, increasing, ?_⟩
  · exact exists_searched (pairwise_starts source) offset
  · exact fun _ => exists_start_of_searched
  · intro offset other same
    exact increasing.injective (congrArg toLex same)

/-- The last byte of a text of two lines whose first character takes two bytes. -/
theorem position_exact_secondLine :
    4 ≤ byteLength "ä\nbc".toList ∧ (ofText "ä\nbc".toList).position 4 = (2, 2) := by
  have inside : 4 ≤ byteLength "ä\nbc".toList := by decide
  refine ⟨inside, ?_⟩
  rw [((position_exact "ä\nbc".toList).1 4 inside).1]
  decide

end LineTable
end Clausal
