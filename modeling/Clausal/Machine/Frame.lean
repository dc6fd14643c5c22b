import Clausal.Core.Expr

/-!
# Frames and matching

A frame holds the variables of one call.  Matching a pattern fills the slots the pattern binds.
-/

namespace Clausal
namespace Machine

open Clausal.Core (Slot Pattern)

/-- The variables that are set, the latest setting of a slot first. -/
abbrev Frame := List (Slot × Value)

namespace Frame

def empty : Frame := []

def get? (frame : Frame) (slot : Slot) : Option Value := frame.lookup slot

def set (frame : Frame) (slot : Slot) (value : Value) : Frame := (slot, value) :: frame

/-- A slot holds what it was last set to. -/
theorem get?_set_self (frame : Frame) (slot : Core.Slot) (value : Value) :
    (frame.set slot value).get? slot = some value := by
  simp [get?, set]

/-- Setting a slot leaves the others alone. -/
theorem get?_set_of_ne (frame : Frame) {slot other : Core.Slot} (value : Value) (h : other ≠ slot) :
    (frame.set slot value).get? other = frame.get? other := by
  have differs : (other == slot) = false := by simpa using h
  simp [get?, set, List.lookup_cons, differs]

end Frame

mutual

/-- Matches a value and gives the frame with the pattern's variables set, or `none`. -/
def matchPattern? : Pattern → Value → Frame → Option Frame
  | .wildcard, _, frame => some frame
  | .bind slot, value, frame => some (frame.set slot value)
  | .same slot, value, frame =>
      match frame.get? slot with
      | some held => if held.same value then some frame else none
      | none => none
  | .literal l, value, frame => if l.toValue.same value then some frame else none
  | .tuple items, .tuple values, frame => matchAll? items values frame
  | .list items, .list values, frame => matchAll? items values frame
  | .listTail items tail, .list values, frame =>
      match matchFront? items values frame with
      | some (rest, frame) => matchPattern? tail (.list rest) frame
      | none => none
  | .map entries, value, frame => matchEntries? entries value frame
  | _, _, _ => none

/-- Matches as many values as there are patterns. -/
def matchAll? : List Pattern → List Value → Frame → Option Frame
  | [], [], frame => some frame
  | p :: ps, v :: vs, frame =>
      match matchPattern? p v frame with
      | some frame => matchAll? ps vs frame
      | none => none
  | _, _, _ => none

/-- Matches the first values of a list and gives the values that are left. -/
def matchFront? : List Pattern → List Value → Frame → Option (List Value × Frame)
  | [], values, frame => some (values, frame)
  | p :: ps, v :: vs, frame =>
      match matchPattern? p v frame with
      | some frame => matchFront? ps vs frame
      | none => none
  | _ :: _, [], _ => none

/-- Matches the values of some keys of a map. -/
def matchEntries? : List (Core.Literal × Pattern) → Value → Frame → Option Frame
  | [], _, frame => some frame
  | (key, p) :: rest, value, frame =>
      match value.mapGet? key.toValue with
      | some held =>
          match matchPattern? p held frame with
          | some frame => matchEntries? rest value frame
          | none => none
      | none => none

end

end Machine
end Clausal
