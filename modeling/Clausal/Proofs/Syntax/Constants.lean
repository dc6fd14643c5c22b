import Clausal.Constant
import Clausal.Proofs.Syntax.Printed
import Clausal.Proofs.Syntax.RoundTrip

/-!
# Printed values read back

A value with a constant is read back from its text as the same value.  The text is cut into the words of
the value (`Value.scan_render`); here these words are read.  No value has an operator, so every nested
reader ends right behind it, at whatever level it reads (`Reader.Recalls`).  Signs are folded into
numbers, an atom before a colon is a key, and a map whose keys differ is the map of its entries.

Main statement: `Constant.read_render`.
-/

namespace Clausal

open Token (Kind)
open Surface (Word Expr Cursor Layout Reader Stops)
open Surface.Word (fixed separated forall_mem_separated)
open Surface.Cursor (headKind)
open Surface.Reader (Starts Run)

/-! ## Words of values -/

namespace Value

/-- A value begins like an operand. -/
theorem Readable.starts {v : Value} (readable : v.Readable) : Starts v.words := by
  cases readable with
  | @int n _ _ =>
      cases n with
      | ofNat m => exact ⟨.integer, rfl, rfl⟩
      | negSucc m => exact ⟨.minus, rfl, rfl⟩
  | bool b => cases b <;> exact ⟨_, rfl, rfl⟩
  | nil => exact ⟨.kwNil, rfl, rfl⟩
  | atom => exact ⟨.atom, rfl, rfl⟩
  | text => exact ⟨.quoted, rfl, rfl⟩
  | list => exact ⟨.leftBracket, rfl, rfl⟩
  | tuple => exact ⟨.leftBrace, rfl, rfl⟩
  | map => exact ⟨.percentBrace, rfl, rfl⟩

/-- A value does not begin with a name. -/
theorem Readable.headKind_ne {v : Value} (readable : v.Readable) (rest : List Word) :
    headKind (v.words ++ rest) ≠ some .identifier := by
  cases readable with
  | @int n _ _ => cases n <;> nofun
  | bool b => cases b <;> nofun
  | nil | atom | text | list | tuple | map => nofun

theorem starts_entryWords {entry : Value × Value} (readable : entry.1.Readable) :
    Starts (entryWords entry) := by
  rcases entry_cases entry with ⟨name, v, rfl⟩ | ⟨-, shape, -⟩
  · exact ⟨.identifier, rfl, rfl⟩
  · rw [shape]
    exact readable.starts.append _

/-- No word of a value is a newline or a comment. -/
theorem Readable.solid {v : Value} (readable : v.Readable) :
    ∀ word ∈ v.words, word.kind ≠ .newline ∧ word.kind ≠ .comment := by
  induction readable with
  | @int n _ _ => cases n <;> simp [Value.words, Word.integer, fixed]
  | bool b => cases b <;> simp [Value.words, fixed]
  | nil => simp [Value.words, fixed]
  | atom => simp [Value.words, Word.atom]
  | text => simp [Value.words, Word.quoted]
  | list _ ih | tuple _ ih =>
      simp only [Value.words, wordsEach_eq_map, List.forall_mem_append, List.forall_mem_cons]
      exact ⟨by decide, forall_mem_separated (by decide) (List.forall_mem_map.mpr ih), by decide,
        List.forall_mem_nil _⟩
  | map _ _ _ _ keys values =>
      simp only [Value.words, wordsEntries_eq_map, List.forall_mem_append, List.forall_mem_cons]
      refine ⟨by decide, forall_mem_separated (by decide) ?_, by decide, List.forall_mem_nil _⟩
      refine List.forall_mem_map.mpr fun entry member => ?_
      rcases entry_cases entry with ⟨name, v, rfl⟩ | ⟨-, shape, -⟩
      · simp only [entryWords, List.forall_mem_cons]
        exact ⟨by simp [Word.ident], by decide, values _ member⟩
      · simp only [shape, List.forall_mem_append, List.forall_mem_cons]
        exact ⟨keys entry member, by decide, values entry member⟩

end Value

/-! ## Constants -/

namespace Constant

section Equations

variable (span : Span)

theorem ofExpr_neg (e : Expr) : ofExpr (.unary span .neg e) = ofExpr e >>= negate := rfl

theorem ofExpr_list (items : List Expr) :
    ofExpr (.list span items) = ofExprs items >>= fun vs => .ok (.list vs) := rfl

theorem ofExpr_tuple (items : List Expr) :
    ofExpr (.tuple span items) = ofExprs items >>= fun vs => .ok (.tuple vs) := rfl

theorem ofExpr_map (entries : List (Expr × Expr)) :
    ofExpr (.map span entries) = ofEntries entries >>= fun found => .ok (.ofEntries found) := rfl

end Equations

/-- An expression stands for a value. -/
def StandsFor (e : Expr) (v : Value) : Prop := ofExpr e = .ok v

theorem ofExprs_of_forall₂ {es : List Expr} {vs : List Value}
    (related : List.Forall₂ StandsFor es vs) : ofExprs es = .ok vs := by
  induction related with
  | nil => rfl
  | cons head _ ih =>
      rw [StandsFor] at head
      simp only [ofExprs, head, ih]
      rfl

theorem ofEntries_of_forall₂ {es : List (Expr × Expr)} {entries : List (Value × Value)}
    (related : List.Forall₂ (fun e entry => StandsFor e.1 entry.1 ∧ StandsFor e.2 entry.2) es entries) :
    ofEntries es = .ok entries := by
  induction related with
  | nil => rfl
  | @cons e entry _ _ head _ ih =>
      simp only [StandsFor] at head
      simp only [ofEntries, head.1, head.2, ih]
      rfl

/-- A minus sign before what stands for a number makes it stand for the opposite number. -/
theorem standsFor_negated {e : Expr} {span : Span} {n : Int} (h : StandsFor e (.int n))
    (range : Value.inRange (-n) = true) : StandsFor (Reader.negated span e) (.int (-n)) := by
  unfold StandsFor at h ⊢
  have signed : ofExpr (.unary span .neg e) = .ok (.int (-n)) := by
    rw [ofExpr_neg, h]
    exact if_pos range
  cases e with
  | integer =>
      -- The sign goes into the literal instead of staying before it.
      cases h
      rfl
  | float => cases h
  | _ => exact signed

end Constant

/-! ## Reading -/

namespace Surface
namespace Reader

open Constant (StandsFor)

/-- A reader of nested expressions that recalls the values of less than `depth` words, at any level. -/
def Recalls (depth : Nat) (sub : Precedence → Reader Expr) : Prop :=
  ∀ (least : Precedence) (v : Value) (c : Cursor) (rest : List Word), v.Readable →
    v.words.length < depth → Stops least (headKind rest) → c.Ahead (v.words ++ rest) →
    Run (sub least) c rest fun out => StandsFor out v

/-- Where a reader ends at some level, it ends at the level of signs. -/
theorem stops_unary {least : Precedence} {next : Option Kind} (stops : Stops least next) :
    Stops .unary next :=
  fun kind member => ⟨(stops kind member).1, fun _ found => Kind.level_lt_unary found⟩

section Values

variable {layout : Layout} {limit depth : Nat} {sub : Precedence → Reader Expr} {c : Cursor}
  {rest : List Word}

/-- An integer is read as an operand; a minus sign is folded into the digits behind it. -/
theorem run_operand_of_int (recalls : Recalls depth sub) {n : Int} (range : Value.inRange n = true)
    (bound : n ≠ Value.minInt) (short : (Value.int n).words.length ≤ depth)
    (stops : Stops .unary (headKind rest)) (ahead : c.Ahead ((Value.int n).words ++ rest)) :
    Run (operand layout limit sub) c rest fun out => StandsFor out (.int n) := by
  have limits := Value.inRange_iff.mp range
  simp only [Value.minInt, Value.maxInt] at limits bound
  cases n with
  | ofNat m =>
      have magnitude : m ≤ maxInteger := by
        rw [Int.ofNat_eq_natCast] at limits
        rw [maxInteger]
        omega
      exact run_operand_of_leaf ahead fun span => ⟨_, Expr.leaf?_integer magnitude span, rfl⟩
  | negSucc m =>
      -- Without the lowest integer, the number behind the sign is in range as well.
      have magnitude : (Value.int (.ofNat (m + 1))).Readable := by
        refine .int (Value.inRange_iff.mpr ?_) ?_
        all_goals
          simp only [Value.minInt, Value.maxInt, Int.ofNat_eq_natCast]
          omega
      have reads := fun c ahead => recalls .unary (.int (.ofNat (m + 1))) c rest magnitude short stops
        ahead
      exact run_operand_of_minus reads (fun span out holds => Constant.standsFor_negated holds range)
        ahead

/-- The values of a row are recalled by a reader of values with as many words as the row. -/
theorem Recalls.readsRow (recalls : Recalls depth sub) {items : List Value}
    (readable : ∀ v ∈ items, v.Readable)
    (short : (separated (items.map Value.words)).length < depth) :
    ∀ v ∈ items, ReadsItem (sub .lowest) Value.words StandsFor v := by
  intro v member c after stops ahead
  have shorter : v.words.length ≤ (separated (items.map Value.words)).length :=
    length_le_separated (List.mem_map_of_mem member)
  exact recalls .lowest v c after (readable v member) (by omega) stops ahead

/-- An entry of a map is recalled, whether its key is written before a colon or before an arrow. -/
theorem Recalls.readsEntry (recalls : Recalls depth sub) {entry : Value × Value}
    (key : entry.1.Readable) (value : entry.2.Readable)
    (short : (Value.entryWords entry).length < depth) :
    ReadsItem (mapEntry layout sub) Value.entryWords
      (fun out entry => StandsFor out.1 entry.1 ∧ StandsFor out.2 entry.2) entry := by
  intro c after stops ahead
  rcases Value.entry_cases entry with ⟨name, v, rfl⟩ | ⟨-, shape, -⟩
  · have readsValue := fun c ahead => recalls .lowest v c after value
      (by simp only [Value.entryWords, List.length_cons] at short; omega) stops ahead
    refine (run_colonEntry readsValue ahead).mono ?_
    rintro ⟨_, out⟩ ⟨⟨span, rfl⟩, holds⟩
    exact ⟨rfl, holds⟩
  · rw [shape, List.length_append, List.length_cons] at short
    rw [shape, List.append_assoc, List.cons_append] at ahead
    have noColon : ∀ word words, entry.1.words = word :: words → word.kind = .identifier →
        headKind (words ++ [fixed .fatArrow]) ≠ some .colon := by
      -- No value begins with a name, so the question does not arise.
      intro word words first isName
      have noName := key.headKind_ne []
      rw [first] at noName
      exact absurd (congrArg some isName) noName
    have run : Run (mapEntry layout sub) c after fun out =>
        StandsFor out.1 entry.1 ∧ StandsFor out.2 entry.2 :=
      run_arrowEntry noColon
        (fun c after stops ahead => recalls .or entry.1 c after key (by omega) stops ahead)
        (fun c ahead => recalls .lowest entry.2 c after value (by omega) stops ahead) ahead
    exact run

/-- A value is read as an operand. -/
theorem run_operand_of_value (recalls : Recalls depth sub) (within : depth ≤ limit) {v : Value}
    (readable : v.Readable) (short : v.words.length ≤ depth) (stops : Stops .unary (headKind rest))
    (ahead : c.Ahead (v.words ++ rest)) :
    Run (operand layout limit sub) c rest fun out => StandsFor out v := by
  cases readable with
  | int range bound => exact run_operand_of_int recalls range bound short stops ahead
  | bool b =>
      cases b <;> exact run_operand_of_leaf ahead fun span => ⟨_, rfl, rfl⟩
  | nil => exact run_operand_of_leaf ahead fun span => ⟨_, rfl, rfl⟩
  | @atom name _ =>
      refine run_operand_of_leaf ahead fun span => ⟨.atom span name, ?_, rfl⟩
      simp [leaf?, Word.atom]
  | @text s _ =>
      refine run_operand_of_leaf ahead fun span => ⟨.text span s, ?_, rfl⟩
      have read := Token.unescape_quoted s
      simp only [leaf?, Word.quoted] at read ⊢
      rw [read]
  | @list items readable =>
      simp only [Value.words, Value.wordsEach_eq_map, List.length_cons, List.length_append,
        List.length_nil, List.cons_append, List.append_assoc, List.nil_append] at ahead short
      have starts := fun v member => (readable v member).starts
      refine run_operand_of_form ahead rfl fun c ahead => ?_
      refine (run_list none (recalls.readsRow readable (by omega)) (by simp) starts (by simp)
        (by omega) ahead).mono ?_
      rintro _ ⟨span, items', _, rfl, related, ⟨⟩⟩
      rw [StandsFor, listOf, Constant.ofExpr_list, Constant.ofExprs_of_forall₂ related]
      rfl
  | @tuple items readable =>
      simp only [Value.words, Value.wordsEach_eq_map, List.length_cons, List.length_append,
        List.length_nil, List.cons_append, List.append_assoc, List.nil_append] at ahead short
      have starts := fun v member => (readable v member).starts
      refine run_operand_of_form ahead rfl fun c ahead => ?_
      refine (run_delimited rfl (recalls.readsRow readable (by omega)) starts (by omega) ahead).mono ?_
      rintro _ ⟨span, items', rfl, related⟩
      rw [StandsFor, Constant.ofExpr_tuple, Constant.ofExprs_of_forall₂ related]
      rfl
  | @map entries keys values distinct names =>
      simp only [Value.words, Value.wordsEntries_eq_map, List.length_cons, List.length_append,
        List.length_nil, List.cons_append, List.append_assoc, List.nil_append] at ahead short
      have starts := fun entry member => Value.starts_entryWords (keys entry member)
      have reads : ∀ entry ∈ entries, ReadsItem (mapEntry layout sub) Value.entryWords
          (fun out entry => StandsFor out.1 entry.1 ∧ StandsFor out.2 entry.2) entry := by
        intro entry member
        have shorter : (Value.entryWords entry).length ≤
            (separated (entries.map Value.entryWords)).length :=
          length_le_separated (List.mem_map_of_mem member)
        exact recalls.readsEntry (keys entry member) (values entry member) (by omega)
      refine run_operand_of_form ahead rfl fun c ahead => ?_
      refine (run_map reads starts (by omega) ahead).mono ?_
      rintro _ ⟨span, entries', rfl, related⟩
      -- The keys differ, so collecting the entries merges none of them.
      rw [StandsFor, Constant.ofExpr_map, Constant.ofEntries_of_forall₂ related,
        ← Value.ofEntries_of_distinct distinct]
      rfl

end Values

/-- A nested reader recalls every value that has fewer words than the reader has steps. -/
theorem expressionAt_recalls (layout : Layout) (limit : Nat) :
    Recalls limit (expressionAt layout limit) := by
  induction limit with
  | zero =>
      intro least v c rest _ short
      exact absurd short (Nat.not_lt_zero _)
  | succ limit ih =>
      intro least v c rest readable short stops ahead
      rw [expressionAt, expressionWith]
      refine (run_operand_of_value ih (Nat.le_succ limit) readable (Nat.le_of_lt_succ short)
        (stops_unary stops) ahead).bind fun out c' holds ahead => ?_
      -- A value is an operand on its own: the loop over operators ends in its first round.
      have ends : Stops least c'.kind? := ahead.kind?_eq ▸ stops
      exact Ensures.step (continuation_of_stops ends) ⟨holds, ahead⟩

end Reader
end Surface

/-- Printed values read back: the text of a value with a constant stands for this value, entry by entry
and element by element. -/
theorem Constant.read_render {v : Value} (readable : v.Readable) : Constant.read v.render = .ok v := by
  have reads : ∀ c, c.Ahead v.words → Run (Reader.expressionAt (Layout.ofText v.render.toList)
      (v.words.length + 1) .lowest) c [] fun out => StandsFor out v := by
    intro c ahead
    exact Reader.expressionAt_recalls _ _ .lowest v c [] readable (Nat.lt_succ_self _) nofun
      (by simpa using ahead)
  rcases Surface.parseExpression_of_words (Value.scan_render readable) readable.solid reads with
    ⟨out, parsed, holds⟩
  delta Constant.read
  rw [parsed]
  exact holds

/-- A list with a negative number, a tuple with an atom and a text to escape, and a map with both kinds
of keys. -/
def sampleConstant : Value :=
  .list [.int (-3), .tuple [.atom "ok?", .text "a\"\n"],
    .map [(.atom "key", .nil), (.int 2, .map []), (.text "key", .bool true)]]

theorem Constant.read_render_sample :
    sampleConstant.Readable ∧
    sampleConstant.render =
      "[-3, \x7b:ok?, \"a\\\"\\n\"\x7d, %\x7bkey: nil, 2 => %\x7b\x7d, \"key\" => true\x7d]" ∧
    Constant.read sampleConstant.render = .ok sampleConstant := by
  have key : Token.IsName "key".toList :=
    ⟨'k', ['e', 'y'], [], rfl, rfl, List.all_eq_true.mp rfl, Nat.zero_le 1, List.forall_mem_nil _⟩
  have ok : Token.IsName "ok?".toList :=
    ⟨'o', ['k'], ['?'], rfl, rfl, List.all_eq_true.mp rfl, Nat.le_refl 1, List.all_eq_true.mp rfl⟩
  have empty : (Value.map []).Readable :=
    .map (List.forall_mem_nil _) (List.forall_mem_nil _) .nil (List.forall_mem_nil _)
  have entries : (Value.map
      [(.atom "key", .nil), (.int 2, .map []), (.text "key", .bool true)]).Readable := by
    refine .map ?_ ?_ (by simp [Value.same]) ?_
    · simp only [List.forall_mem_cons]
      exact ⟨.atom key, .int (by decide) (by decide), .text (by decide +kernel),
        List.forall_mem_nil _⟩
    · simp only [List.forall_mem_cons]
      exact ⟨.nil, empty, .bool true, List.forall_mem_nil _⟩
    · simp only [List.forall_mem_cons]
      refine ⟨?_, by simp, by simp, List.forall_mem_nil _⟩
      rintro _ ⟨⟩
      unfold Token.NoKeyword
      decide
  have readable : sampleConstant.Readable := by
    refine .list ?_
    simp only [List.forall_mem_cons]
    refine ⟨.int (by decide) (by decide), .tuple ?_, entries, List.forall_mem_nil _⟩
    simp only [List.forall_mem_cons]
    exact ⟨.atom ok, .text (by decide +kernel), List.forall_mem_nil _⟩
  exact ⟨readable, by with_unfolding_all rfl, Constant.read_render readable⟩

end Clausal
