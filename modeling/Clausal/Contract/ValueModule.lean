import Clausal.Value.Display
import Clausal.Regex.Read

/-!
# Value modules

A value module is what a parameter or a struct field is checked against.  It has two operations:
`validate` accepts a value, possibly in a normal form, or refuses it with a diagnostic, and
`default` gives a value to start from.  The modules are ranges of numbers, restricted texts, sets
of atoms, lists of bounded length, and the records of a struct.  A host program may register modules
of its own (`foreign`), of which nothing but the two operations is known.
-/

namespace Clausal

/-- A regular expression and the text it was read from. -/
structure TextPattern where
  source : String
  regex : Regex
  deriving Inhabited

/-- Reads a pattern; `none` if the text is no regular expression. -/
def TextPattern.ofText? (source : String) : Option TextPattern :=
  (Regex.ofText? source).map fun regex => { source, regex }

inductive ValueModule where
  | integers (min max default : Option Int)
  | floats (min max : Option Float) (default : Float)
  | texts (pattern : Option TextPattern) (minLength : Nat) (maxLength : Option Nat)
      (default : Option String)
  | atoms (members : List String)
  | lists (minLength : Nat) (maxLength : Option Nat)
  | listsOf (minLength : Nat) (maxLength : Option Nat) (element : ValueModule)
  /-- The records of a struct: each field has a module that checks it and the value it gets when
  none is given. -/
  | records (name : String) (fields : List (String × ValueModule × Value))
  /-- A module from outside, given by what its two operations answer. -/
  | foreign (check : Value → Except String Value) (start : Except String Value)
  deriving Inhabited

/-- Why a field of a record was refused. -/
structure FieldFailure where
  field : String
  value : Value
  diagnostic : String
  deriving Inhabited

namespace ValueModule

/-! ## Construction -/

/-- A range of integers.  Its default is the lower bound, or the number nearest to zero when there
is none. -/
def integerRange (min max : Option Int) : ValueModule :=
  integers min max <| some <| match min, max with
    | some low, _ => low
    | none, some high => Min.min high 0
    | none, none => 0

/-- A range of floats.  Its default is the lower bound, or zero. -/
def floatRange (min max : Option Float) : ValueModule := floats min max (min.getD 0.0)

/-- All texts, the empty one by default. -/
def anyText : ValueModule := texts none 0 none (some "")

/-- The texts in which a pattern is found, without a default. -/
def matching (pattern : TextPattern) : ValueModule := texts (some pattern) 0 none none

/-! ## Validation -/

/-- The refusal of a value of the wrong kind. -/
def mustBe (kind : String) (value : Value) : String :=
  "must be " ++ kind ++ ", got: " ++ value.shown

/-- The first of some checks that fails, given as a test and its message. -/
def firstFailure : List (Bool × String) → Option String
  | [] => none
  | (true, _) :: rest => firstFailure rest
  | (false, message) :: _ => some message

/-- Accepts `value` when all checks hold. -/
def accept (value : Value) (checks : List (Bool × String)) : Except String Value :=
  match firstFailure checks with
  | none => .ok value
  | some message => .error message

/-- No failure is reported exactly when every check holds. -/
theorem firstFailure_eq_none_iff {checks : List (Bool × String)} :
    firstFailure checks = none ↔ ∀ check ∈ checks, check.1 = true := by
  induction checks with
  | nil => simp [firstFailure]
  | cons check rest ih =>
      obtain ⟨holds, message⟩ := check
      cases holds <;> simp [firstFailure, ih]

/-- A value is accepted, unchanged, exactly when every check holds. -/
theorem accept_eq_ok_iff {value accepted : Value} {checks : List (Bool × String)} :
    accept value checks = .ok accepted ↔ accepted = value ∧ ∀ check ∈ checks, check.1 = true := by
  rw [← firstFailure_eq_none_iff]
  unfold accept
  cases firstFailure checks <;> simp [eq_comm]

def validateInteger (min max : Option Int) (value : Value) : Except String Value :=
  match value with
  | .int n =>
      accept value
        [(min.all (· ≤ n), "must be greater than or equal to " ++ min.elim "" toString),
         (max.all (n ≤ ·), "must be less than or equal to " ++ max.elim "" toString)]
  | value => .error (mustBe "an integer" value)

/-- A bound in a message. -/
def floatBound (bound : Option Float) : String := bound.elim "" Decimal.plain.render

/-- Accepts finite numbers; an integer becomes a float. -/
def validateFloat (min max : Option Float) (value : Value) : Except String Value :=
  match value.float? with
  | some x =>
      accept (.float x)
        [(Decimal.isFinite x, "must be a finite number"),
         (!min.any (x < ·), "must be greater than or equal to " ++ floatBound min),
         (!max.any (· < x), "must be less than or equal to " ++ floatBound max)]
  | none => .error (mustBe "a number" value)

def validateText (pattern : Option TextPattern) (minLength : Nat) (maxLength : Option Nat)
    (value : Value) : Except String Value :=
  match value with
  | .text s =>
      accept value
        [(minLength ≤ s.length, "must be at least " ++ toString minLength ++ " characters"),
         (maxLength.all (s.length ≤ ·),
           "must be at most " ++ maxLength.elim "" toString ++ " characters"),
         (pattern.all (·.regex.isMatch s), "must match " ++ pattern.elim "" (·.source))]
  | value => .error (mustBe "text" value)

/-- How a set of atoms is described. -/
def oneOf (members : List String) : String :=
  "one of [" ++ ", ".intercalate (members.map fun member => ":" ++ member) ++ "]"

/-- Accepts the members, also when they are given as texts. -/
def validateAtom (members : List String) (value : Value) : Except String Value :=
  match value with
  | .atom name | .text name =>
      if members.contains name then .ok (.atom name) else .error (mustBe (oneOf members) value)
  | value => .error (mustBe (oneOf members) value)

/-- The checks of a list's length. -/
def lengthChecks (minLength : Nat) (maxLength : Option Nat) (length : Nat) :
    List (Bool × String) :=
  [(minLength ≤ length, "must have at least " ++ toString minLength ++ " element(s)"),
   (maxLength.all (length ≤ ·), "must have at most " ++ maxLength.elim "" toString ++ " element(s)")]

def validateLength (minLength : Nat) (maxLength : Option Nat) (value : Value) :
    Except String (List Value) :=
  match value with
  | .list items =>
      match firstFailure (lengthChecks minLength maxLength items.length) with
      | none => .ok items
      | some message => .error message
  | value => .error (mustBe "a list" value)

/-- Validates the elements of a list; a refusal names the index of the element. -/
def validateElements (validate : Value → Except String Value) :
    (index : Nat) → List Value → Except String (List Value)
  | _, [] => .ok []
  | index, item :: items =>
      match validate item with
      | .error diagnostic => .error ("element " ++ toString index ++ ": " ++ diagnostic)
      | .ok value => (validateElements validate (index + 1) items).map (value :: ·)

/-- The value given for a field, under its name as an atom or else as a text. -/
def given? (mapping : Value) (field : String) : Option Value :=
  (mapping.mapGet? (.atom field)).or (mapping.mapGet? (.text field))

/-- The fields of a record as a map with atom keys. -/
def asMapping : Value → Value
  | .record _ fields => .ofEntries (fields.map fun (name, value) => (.atom name, value))
  | value => value

/-- The map that a value of a struct module is built from: a map itself, or the fields of a record
of the same struct. -/
def mapping? (name : String) (value : Value) : Option Value :=
  match value with
  | .map _ => some value
  | value => if value.isRecordOf name then some (asMapping value) else none

mutual

/-- Accepts a value, in its normal form, or refuses it. -/
def validate : ValueModule → Value → Except String Value
  | integers min max _, value => validateInteger min max value
  | floats min max _, value => validateFloat min max value
  | texts pattern minLength maxLength _, value => validateText pattern minLength maxLength value
  | atoms members, value => validateAtom members value
  | lists minLength maxLength, value => (validateLength minLength maxLength value).map .list
  | listsOf minLength maxLength element, value =>
      match validateLength minLength maxLength value with
      | .error diagnostic => .error diagnostic
      | .ok items => (validateElements (validate element) 0 items).map .list
  | records name fields, value =>
      match mapping? name value with
      | none => .error (mustBe ("a map or %" ++ name ++ "\x7b\x7d record") value)
      | some mapping =>
          match construct fields mapping with
          | .ok values => .ok (.record name values)
          | .error failure =>
              .error (failure.field ++ ": " ++ failure.diagnostic
                ++ " (got " ++ failure.value.render ++ ")")
  | foreign check _, value => check value

/-- The fields of a new record: those given in a map are validated, the others get their
defaults. -/
def construct : List (String × ValueModule × Value) → (mapping : Value) →
    Except FieldFailure (List (String × Value))
  | [], _ => .ok []
  | (field, checker, fallback) :: rest, mapping =>
      match given? mapping field with
      | none => (construct rest mapping).map ((field, fallback) :: ·)
      | some raw =>
          match validate checker raw with
          | .error diagnostic => .error ⟨field, raw, diagnostic⟩
          | .ok value => (construct rest mapping).map ((field, value) :: ·)

end

/-- A value to start from. -/
def default : ValueModule → Except String Value
  | checker@(integers _ _ (some n)) => checker.validate (.int n)
  | integers _ _ none => .error "no default value"
  | checker@(floats _ _ x) => checker.validate (.float x)
  | checker@(texts _ _ _ (some s)) => checker.validate (.text s)
  | texts _ _ _ none => .error "no default value"
  | atoms (member :: _) => .ok (.atom member)
  | atoms [] => .error "no default value"
  | checker@(lists ..) => checker.validate (.list [])
  | checker@(listsOf ..) => checker.validate (.list [])
  | records name fields =>
      .ok (.record name (fields.map fun (field, _, fallback) => (field, fallback)))
  | foreign _ start => start

end ValueModule

/-- Named value modules; a name stands for the first module registered under it. -/
abbrev Registry := List (String × ValueModule)

namespace Registry

def get? (registry : Registry) (name : String) : Option ValueModule := registry.lookup name

def contains (registry : Registry) (name : String) : Bool := (registry.get? name).isSome

/-- Registers a module in the place of any other of its name. -/
def insert (registry : Registry) (name : String) (checker : ValueModule) : Registry :=
  (name, checker) :: registry.filter fun entry => entry.1 != name

/-- The registered names in ascending order. -/
def names (registry : Registry) : List String :=
  (registry.map Prod.fst).mergeSort fun a b => a ≤ b

/-- A name has the module it was last given. -/
theorem get?_insert_self (registry : Registry) (name : String) (checker : ValueModule) :
    (registry.insert name checker).get? name = some checker := by
  simp [get?, insert]

/-- Giving a name its module leaves the other names alone. -/
theorem get?_insert_of_ne (registry : Registry) {name other : String} (checker : ValueModule)
    (h : other ≠ name) : (registry.insert name checker).get? other = registry.get? other := by
  have hb : (other == name) = false := by simpa using h
  simp only [get?, insert, List.lookup_cons, hb]
  induction registry with
  | nil => rfl
  | cons entry rest ih =>
      obtain ⟨key, found⟩ := entry
      by_cases hk : key = name
      · subst hk
        simp [List.lookup_cons, hb, ih]
      · by_cases ho : other = key <;> simp [List.lookup_cons, hk, ho, ih]

end Registry
end Clausal
