import Clausal.Machine.Frame
import Clausal.Spec.Pattern

/-!
# Collections in patterns

`Stands p v q w` says that where the pattern `p` is held against the value `v`, its part `q` is held
against `w`.  Where a match succeeds every collection pattern stands against a collection of its own
kind (`collections_stand_against_own_kind`), with one exception: a map pattern looks up its keys and
does nothing else, so without entries it matches every value (`emptyMap_matches_nil`).
-/

namespace Clausal
namespace Machine

open Clausal.Core (Pattern)

/-- Where the first pattern is held against the first value, its part, the second pattern, is held
against the second value. -/
inductive Stands : Pattern → Value → Pattern → Value → Prop where
  | here {p v} : Stands p v p v
  | tuple {items values p v q w} {i : Nat} (item : items[i]? = some p) (value : values[i]? = some v)
      (inner : Stands p v q w) : Stands (.tuple items) (.tuple values) q w
  | list {items values p v q w} {i : Nat} (item : items[i]? = some p) (value : values[i]? = some v)
      (inner : Stands p v q w) : Stands (.list items) (.list values) q w
  | front {items tail values p v q w} {i : Nat} (item : items[i]? = some p)
      (value : values[i]? = some v) (inner : Stands p v q w) :
      Stands (.listTail items tail) (.list values) q w
  | tail {items tail values q w} (inner : Stands tail (.list (values.drop items.length)) q w) :
      Stands (.listTail items tail) (.list values) q w
  | entry {entries v key p held q w} (member : (key, p) ∈ entries)
      (there : v.mapGet? key.toValue = some held) (inner : Stands p held q w) :
      Stands (.map entries) v q w

/-- Some match of the pattern against the value succeeds. -/
def Succeeds (p : Pattern) (v : Value) : Prop :=
  ∃ frame frame', matchPattern? p v frame = some frame'

variable {frame frame' : Frame} {p : Pattern} {v : Value}

/-- A match of all values is a match of the first ones that leaves none. -/
theorem matchFront?_of_matchAll? {items : List Pattern} {values : List Value}
    (matched : matchAll? items values frame = some frame') :
    matchFront? items values frame = some ([], frame') := by
  induction items generalizing values frame with
  | nil =>
      cases values with
      | nil =>
          cases matched
          rfl
      | cons => cases matched
  | cons q items ih =>
      cases values with
      | nil => cases matched
      | cons w values =>
          rw [matchAll?] at matched
          split at matched
          next frame₁ first =>
              rw [matchFront?, first]
              exact ih matched
          next => cases matched

theorem succeeds_of_matchFront? {items : List Pattern} {values rest : List Value} {i : Nat}
    (matched : matchFront? items values frame = some (rest, frame')) (item : items[i]? = some p)
    (value : values[i]? = some v) : Succeeds p v := by
  induction items generalizing values frame i with
  | nil => cases item
  | cons q items ih =>
      cases values with
      | nil => cases value
      | cons w values =>
          rw [matchFront?] at matched
          split at matched
          next frame₁ first =>
              cases i with
              | zero =>
                  cases item
                  cases value
                  exact ⟨frame, frame₁, first⟩
              | succ i => exact ih matched item value
          next => cases matched

theorem rest_of_matchFront? {items : List Pattern} {values rest : List Value}
    (matched : matchFront? items values frame = some (rest, frame')) :
    rest = values.drop items.length := by
  induction items generalizing values frame with
  | nil =>
      cases matched
      rfl
  | cons q items ih =>
      cases values with
      | nil => cases matched
      | cons w values =>
          rw [matchFront?] at matched
          split at matched
          next => exact ih matched
          next => cases matched

theorem succeeds_of_matchEntries? {entries : List (Core.Literal × Pattern)} {key : Core.Literal}
    {held : Value} (matched : matchEntries? entries v frame = some frame')
    (member : (key, p) ∈ entries) (there : v.mapGet? key.toValue = some held) : Succeeds p held := by
  induction entries generalizing frame with
  | nil => cases member
  | cons entry entries ih =>
      rw [matchEntries?] at matched
      split at matched
      next value found =>
          split at matched
          next frame₁ first =>
              rcases List.mem_cons.mp member with rfl | later
              · cases found.symm.trans there
                exact ⟨frame, frame₁, first⟩
              · exact ih matched later
          next => cases matched
      next => cases matched

/-- Where a pattern matches, every part of it matches the value it stands against. -/
theorem Stands.succeeds {q : Pattern} {w : Value} (stands : Stands p v q w) (matched : Succeeds p v) :
    Succeeds q w := by
  -- A pattern that matches hands the parts of its value to its own parts, in the frame it has got to by
  -- then.
  induction stands with
  | here => exact matched
  | tuple item value _ ih =>
      obtain ⟨frame, frame', matched⟩ := matched
      rw [matchPattern?] at matched
      exact ih (succeeds_of_matchFront? (matchFront?_of_matchAll? matched) item value)
  | list item value _ ih =>
      obtain ⟨frame, frame', matched⟩ := matched
      rw [matchPattern?] at matched
      exact ih (succeeds_of_matchFront? (matchFront?_of_matchAll? matched) item value)
  | front item value _ ih =>
      obtain ⟨frame, frame', matched⟩ := matched
      rw [matchPattern?] at matched
      split at matched
      next front => exact ih (succeeds_of_matchFront? front item value)
      next => cases matched
  | tail _ ih =>
      obtain ⟨frame, frame', matched⟩ := matched
      rw [matchPattern?] at matched
      split at matched
      next rest frame₁ front =>
          rw [rest_of_matchFront? front] at matched
          exact ih ⟨frame₁, frame', matched⟩
      next => cases matched
  | entry member there _ ih =>
      obtain ⟨frame, frame', matched⟩ := matched
      rw [matchPattern?] at matched
      exact ih (succeeds_of_matchEntries? matched member there)

theorem isTuple_of_succeeds {items : List Pattern} (matched : Succeeds (.tuple items) v) :
    v.isTuple = true := by
  obtain ⟨frame, frame', matched⟩ := matched
  cases v <;> first | rfl | cases matched

theorem isList_of_succeeds {items : List Pattern} (matched : Succeeds (.list items) v) :
    v.isList = true := by
  obtain ⟨frame, frame', matched⟩ := matched
  cases v <;> first | rfl | cases matched

theorem isList_of_succeeds_listTail {items : List Pattern} {tail : Pattern}
    (matched : Succeeds (.listTail items tail) v) : v.isList = true := by
  obtain ⟨frame, frame', matched⟩ := matched
  cases v <;> first | rfl | cases matched

/-- A map pattern finds out that a value is no map by a key that is not there, if it has one. -/
theorem isMap_of_succeeds {entry : Core.Literal × Pattern} {entries : List (Core.Literal × Pattern)}
    (matched : Succeeds (.map (entry :: entries)) v) : v.isMap = true := by
  obtain ⟨frame, frame', matched⟩ := matched
  cases v <;> first | rfl | cases matched

/-- Where a pattern matches, its tuple patterns stand against tuples, its list patterns against lists
and its map patterns that have entries against maps, at any depth.  A map pattern without entries asks
for nothing: it matches every value. -/
theorem collections_stand_against_own_kind (matched : matchPattern? p v frame = some frame') :
    (∀ q w, Stands p v q w →
      (∀ items, q = .tuple items → w.isTuple = true) ∧
      (∀ items, q = .list items → w.isList = true) ∧
      (∀ items tail, q = .listTail items tail → w.isList = true) ∧
      ∀ entries, q = .map entries → entries ≠ [] → w.isMap = true) ∧
    ∀ w, matchPattern? (.map []) w frame = some frame := by
  refine ⟨?_, fun w => rfl⟩
  intro q w stands
  have inner := stands.succeeds ⟨frame, frame', matched⟩
  refine ⟨?_, ?_, ?_, ?_⟩
  · rintro items rfl
    exact isTuple_of_succeeds inner
  · rintro items rfl
    exact isList_of_succeeds inner
  · rintro items tail rfl
    exact isList_of_succeeds_listTail inner
  · rintro entries rfl nonempty
    obtain ⟨entry, entries, rfl⟩ := List.exists_cons_of_ne_nil nonempty
    exact isMap_of_succeeds inner

theorem collections_stand_against_own_kind_nested :
    matchPattern? (.tuple [.map [(.atom "key", .list [.bind 0])]])
        (.tuple [.map [(.atom "key", .list [.nil])]]) .empty = some [(0, .nil)] ∧
      Value.isMap (.map [(.atom "key", .list [.nil])]) = true := by
  have matched : matchPattern? (.tuple [.map [(.atom "key", .list [.bind 0])]])
      (.tuple [.map [(.atom "key", .list [.nil])]]) .empty = some [(0, .nil)] := by
    simp [matchPattern?, matchAll?, matchEntries?, Value.mapGet?, Value.findEntry?, Value.same,
      Core.Literal.toValue, Frame.set, Frame.empty]
  have stands : Stands (.tuple [.map [(.atom "key", .list [.bind 0])]])
      (.tuple [.map [(.atom "key", .list [.nil])]]) (.map [(.atom "key", .list [.bind 0])])
      (.map [(.atom "key", .list [.nil])]) := .tuple (i := 0) rfl rfl .here
  obtain ⟨-, -, -, isMap⟩ := (collections_stand_against_own_kind matched).1 _ _ stands
  exact ⟨matched, isMap _ rfl (List.cons_ne_nil _ _)⟩

/-- A head `%{}` is lowered to a map pattern that matches `nil`, which is no map. -/
theorem emptyMap_matches_nil :
    Lowering.lowerPatterns [.map .synthetic []] ⟨[], []⟩ = .ok ([.map []], ⟨[], []⟩) ∧
      matchPattern? (.map []) .nil .empty = some .empty ∧
      Stands (.map []) .nil (.map []) .nil ∧ Value.isMap .nil = false :=
  ⟨rfl, rfl, .here, rfl⟩

end Machine
end Clausal
