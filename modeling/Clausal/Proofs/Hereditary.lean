import Clausal.Machine.Eval

/-!
# Hereditary properties of values

A property of values is hereditary if plain data has it, a collection has it exactly if its members
do, and the fields of a record with the property have it too.  The operators, the builtins and the
look-ups in maps and records only take values apart or make plain data, so they keep every such
property.
-/

namespace Clausal

/-! ## Results -/

/-- A result that, if it is a value, has a property. -/
def Delivers {ε α : Type} (Q : α → Prop) (result : Except ε α) : Prop :=
  ∀ a, result = .ok a → Q a

namespace Delivers

variable {ε α β : Type} {Q : α → Prop} {R : β → Prop}

theorem ok {a : α} (h : Q a) : Delivers Q (.ok a : Except ε α) := by
  rintro _ ⟨⟩
  exact h

theorem error (e : ε) : Delivers Q (.error e : Except ε α) := nofun

theorem bind {x : Except ε α} {f : α → Except ε β} (first : Delivers Q x)
    (next : ∀ a, Q a → Delivers R (f a)) : Delivers R (x >>= f) := by
  cases x with
  | error e => exact .error e
  | ok a => exact next a (first a rfl)

theorem map {x : Except ε α} {f : α → β} (first : Delivers Q x) (next : ∀ a, Q a → R (f a)) :
    Delivers R (x.map f) := by
  cases x with
  | error e => exact .error e
  | ok a => exact .ok (next a (first a rfl))

end Delivers

/-! ## Occurrence -/

/-- A value occurs in another at some depth. -/
inductive Value.Occurs (part : Value) : Value → Prop where
  | self : Occurs part part
  | item {items item} (member : item ∈ items) (inside : Occurs part item) :
      Occurs part (.list items)
  | component {items item} (member : item ∈ items) (inside : Occurs part item) :
      Occurs part (.tuple items)
  | key {entries entry} (member : entry ∈ entries) (inside : Occurs part entry.1) :
      Occurs part (.map entries)
  | value {entries entry} (member : entry ∈ entries) (inside : Occurs part entry.2) :
      Occurs part (.map entries)
  | field {name fields field} (member : field ∈ fields) (inside : Occurs part field.2) :
      Occurs part (.record name fields)

/-! ## Hereditary properties -/

/-- A property of values that is a matter of the records in them. -/
structure Hereditary (P : Value → Prop) : Prop where
  int (n : Int) : P (.int n)
  float (x : Float) : P (.float x)
  bool (b : Bool) : P (.bool b)
  text (s : String) : P (.text s)
  binary (bytes : List UInt8) : P (.binary bytes)
  atom (name : String) : P (.atom name)
  nil : P .nil
  list {items : List Value} : P (.list items) ↔ ∀ item ∈ items, P item
  tuple {items : List Value} : P (.tuple items) ↔ ∀ item ∈ items, P item
  map {entries : List (Value × Value)} :
    P (.map entries) ↔ ∀ entry ∈ entries, P entry.1 ∧ P entry.2
  fields {name : String} {fields : List (String × Value)} :
    P (.record name fields) → ∀ field ∈ fields, P field.2

namespace Hereditary

variable {P : Value → Prop} (h : Hereditary P)

include h

theorem literal (value : Core.Literal) : P value.toValue := by
  cases value with
  | int n => exact h.int n
  | float x => exact h.float x
  | text s => exact h.text s
  | atom name => exact h.atom name
  | bool b => exact h.bool b
  | nil => exact h.nil

/-- `{:ok, value}` has the property if the value has it. -/
theorem okTuple {v : Value} (held : P v) : P (.ok v) := by
  refine h.tuple.mpr ?_
  intro item member
  rcases List.mem_cons.mp member with rfl | member
  · exact h.atom "ok"
  · rw [List.mem_singleton.mp member]
    exact held

theorem errorTuple {v : Value} (held : P v) : P (.error v) := by
  refine h.tuple.mpr ?_
  intro item member
  rcases List.mem_cons.mp member with rfl | member
  · exact h.atom "error"
  · rw [List.mem_singleton.mp member]
    exact held

/-! ### Maps and fields -/

omit h in
theorem insertEntry {key value : Value} {entries : List (Value × Value)} (heldKey : P key)
    (heldValue : P value) (held : ∀ entry ∈ entries, P entry.1 ∧ P entry.2) :
    ∀ entry ∈ Value.insertEntry key value entries, P entry.1 ∧ P entry.2 := by
  induction entries with
  | nil => simpa [Value.insertEntry] using And.intro heldKey heldValue
  | cons first rest ih =>
      rcases first with ⟨k, v⟩
      rw [List.forall_mem_cons] at held
      simp only [Value.insertEntry]
      split
      · exact List.forall_mem_cons.mpr ⟨⟨held.1.1, heldValue⟩, held.2⟩
      · exact List.forall_mem_cons.mpr ⟨held.1, ih held.2⟩

theorem ofEntries {entries : List (Value × Value)}
    (held : ∀ entry ∈ entries, P entry.1 ∧ P entry.2) : P (.ofEntries entries) := by
  refine h.map.mpr ?_
  -- The entries are inserted one by one into those that are there already.
  suffices grown : ∀ found : List (Value × Value), (∀ entry ∈ found, P entry.1 ∧ P entry.2) →
      ∀ entry ∈ entries.foldl (fun found entry => Value.insertEntry entry.1 entry.2 found) found,
        P entry.1 ∧ P entry.2 from grown [] (by simp)
  induction entries with
  | nil => exact fun found heldFound => heldFound
  | cons entry rest ih =>
      intro found heldFound
      rw [List.forall_mem_cons] at held
      exact ih held.2 _ (insertEntry held.1.1 held.1.2 heldFound)

theorem mapGet {v key found : Value} (held : P v) (got : v.mapGet? key = some found) :
    P found := by
  cases v with
  | map entries =>
      rcases Option.map_eq_some_iff.mp got with ⟨entry, here, rfl⟩
      exact (h.map.mp held entry (List.mem_of_find?_eq_some here)).2
  | _ => cases got

theorem field {v found : Value} {name : String} (held : P v) (got : v.field? name = some found) :
    P found := by
  cases v with
  | record type fields =>
      rcases Option.map_eq_some_iff.mp got with ⟨entry, here, rfl⟩
      exact h.fields held entry (List.mem_of_find?_eq_some here)
  | _ => cases got

/-! ### Operators and builtins -/

theorem checked (n : Int) (operation : String) : Delivers P (Value.checked n operation) := by
  unfold Value.checked
  split
  · exact .ok (h.int n)
  · exact .error _

theorem arithmetic (op : StrictOp) (onInts : Int → Int → Int) (onFloats : Float → Float → Float)
    (a b : Value) : Delivers P (Value.arithmetic op onInts onFloats a b) := by
  unfold Value.arithmetic
  split
  · exact h.checked _ _
  · split
    · exact .ok (h.float _)
    · exact .error _

theorem ordered (op : StrictOp) (test : Ordering → Bool) (a b : Value) :
    Delivers P (Value.ordered op test a b) := by
  unfold Value.ordered
  split
  · exact .ok (h.bool _)
  · exact .error _

theorem divide (a b : Value) : Delivers P (Value.divide a b) := by
  unfold Value.divide
  split
  · split
    · exact .error _
    · exact .ok (h.float _)
  · exact .error _

theorem join (a b : Value) : Delivers P (Value.join a b) := by
  unfold Value.join
  split
  · exact .ok (h.text _)
  · exact .ok (h.binary _)
  · exact .error _

/-- What an operator gives is plain data. -/
theorem apply (op : StrictOp) (a b : Value) : Delivers P (Value.apply op a b) := by
  cases op with
  | add | sub | mul => exact h.arithmetic _ _ _ a b
  | div => exact h.divide a b
  | equal | notEqual => exact .ok (h.bool _)
  | less | greater | lessEqual | greaterEqual => exact h.ordered _ _ a b
  | concat => exact h.join a b

theorem applyUnary (op : UnaryOp) (v : Value) : Delivers P (v.applyUnary op) := by
  cases op with
  | neg =>
      cases v with
      | int n => exact h.checked _ _
      | float x => exact .ok (h.float _)
      | _ => exact .error _
  | not =>
      cases v with
      | bool b => exact .ok (h.bool _)
      | _ => exact .error _

theorem fieldOf {target : Value} (name : String) (held : P target) :
    Delivers P (Machine.fieldOf target name) := by
  unfold Machine.fieldOf
  intro v got
  cases target with
  | record type fields =>
      cases found : (Value.record type fields).field? name with
      | none => simp [found] at got
      | some value =>
          simp only [found, Except.ok.injEq] at got
          exact got ▸ h.field held found
  | map entries =>
      cases found : (Value.map entries).mapGet? (.atom name) with
      | none => simp [found] at got
      | some value =>
          simp only [found, Except.ok.injEq] at got
          exact got ▸ h.mapGet held found
  | _ => cases got

theorem tailItems {v : Value} (held : P v) :
    Delivers (fun items => ∀ item ∈ items, P item) (Machine.tailItems v) := by
  cases v with
  | list items => exact .ok (h.list.mp held)
  | _ => exact .error _

omit h in
theorem choose (builtin : Core.Builtin) (keep : Ordering → Bool) {x y : Value} (heldX : P x)
    (heldY : P y) : Delivers P (Machine.choose builtin keep x y) := by
  unfold Machine.choose
  split
  · refine .ok ?_
    split
    · exact heldX
    · exact heldY
  · exact .error _

theorem elementAt {x : Value} (y : Value) (held : P x) :
    Delivers P (Machine.elementAt x y) := by
  unfold Machine.elementAt
  split
  next items index =>
    split
    next item found =>
      split at found
      · exact .ok (h.tuple.mp held item (List.mem_of_getElem? found))
      · cases found
    next => exact .error _
  next => exact .error _

theorem lookUp {x : Value} (key : Value) (held : P x) : Delivers P (Machine.lookUp x key) := by
  have orNil : ∀ {found : Option Value}, (∀ v, found = some v → P v) → P (found.getD .nil) := by
    intro found each
    cases found with
    | none => exact h.nil
    | some v => exact each v rfl
  unfold Machine.lookUp
  split
  · exact .ok (orNil fun v got => h.mapGet held got)
  · split
    · exact .ok (orNil fun v got => h.field held got)
    · exact .ok h.nil
  · exact .error _

theorem applyOne (builtin : Core.Builtin) {x : Value} (held : P x) :
    Delivers P (Machine.applyOne builtin x) := by
  -- Only `hd` and `tl` give back parts of their argument; the others make a leaf.
  cases builtin with
  | length =>
      simp only [Machine.applyOne]
      split
      · exact .ok (h.int _)
      · exact .error _
  | abs =>
      cases x with
      | int n => exact h.checked _ _
      | float y => exact .ok (h.float _)
      | _ => exact .error _
  | toText =>
      refine .ok ?_
      cases x <;> exact h.text _
  | hd =>
      simp only [Machine.applyOne]
      split
      next first rest => exact .ok (h.list.mp held first List.mem_cons_self)
      next => exact .error _
  | tl =>
      simp only [Machine.applyOne]
      split
      next first rest =>
        refine .ok (h.list.mpr ?_)
        intro item member
        exact h.list.mp held item (List.mem_cons_of_mem first member)
      next => exact .error _
  | min | max | elem | mapGet => exact .error _
  | _ => exact .ok (h.bool _)

theorem applyBuiltin (builtin : Core.Builtin) {args : List Value} (held : ∀ arg ∈ args, P arg) :
    Delivers P (Machine.applyBuiltin builtin args) := by
  unfold Machine.applyBuiltin
  split
  · exact .error _
  · split
    next x _ => exact h.applyOne builtin (held x (by simp))
    next x y _ =>
      have heldX : P x := held x (by simp)
      have heldY : P y := held y (by simp)
      unfold Machine.applyTwo
      split
      · exact choose _ _ heldX heldY
      · exact choose _ _ heldX heldY
      · exact h.elementAt y heldX
      · exact h.lookUp y heldX
      · exact .error _
    next => exact .error _

end Hereditary

end Clausal
