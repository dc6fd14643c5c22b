/-!
# Values

Everything a program can receive or produce.  Integers stay in the range of 64 bits (`Value.inRange`):
the operations that could leave it report an overflow.  A map is a list of entries in the order
their keys first came in; `Value.ofEntries` builds one.

Two values are `same` when they have the same structure.  Floats are compared as numbers, so that
zero equals its negative and "not a number" equals nothing, and maps as sets of entries.
-/

namespace Clausal

inductive Value where
  | int (value : Int)
  | float (value : Float)
  | bool (value : Bool)
  | text (value : String)
  | binary (bytes : List UInt8)
  | atom (name : String)
  | nil
  | list (items : List Value)
  | tuple (items : List Value)
  | map (entries : List (Value × Value))
  | function (owner name : String) (arity : Nat)
  | pid (id : Nat)
  | reference (id : Nat)
  | record (typeName : String) (fields : List (String × Value))
  deriving Inhabited

namespace Value

/-! ## Integers -/

def minInt : Int := -9223372036854775808

def maxInt : Int := 9223372036854775807

/-- Whether an integer is a value. -/
def inRange (n : Int) : Bool := minInt ≤ n && n ≤ maxInt

theorem inRange_iff {n : Int} : inRange n = true ↔ minInt ≤ n ∧ n ≤ maxInt := by
  simp [inRange]

/-! ## Kinds -/

/-- The name of a value's type; a record has the name of its struct. -/
def typeName : Value → String
  | int _ => "integer"
  | float _ => "float"
  | bool _ => "boolean"
  | text _ => "text"
  | binary _ => "binary"
  | atom _ => "atom"
  | nil => "nil"
  | list _ => "list"
  | tuple _ => "tuple"
  | map _ => "map"
  | function .. => "function"
  | pid _ => "pid"
  | reference _ => "reference"
  | record name _ => name

def isInteger : Value → Bool
  | int _ => true
  | _ => false

def isFloat : Value → Bool
  | float _ => true
  | _ => false

def isBoolean : Value → Bool
  | bool _ => true
  | _ => false

def isText : Value → Bool
  | text _ => true
  | _ => false

def isBinary : Value → Bool
  | binary _ => true
  | _ => false

def isAtom : Value → Bool
  | atom _ => true
  | _ => false

def isNil : Value → Bool
  | nil => true
  | _ => false

def isList : Value → Bool
  | list _ => true
  | _ => false

def isTuple : Value → Bool
  | tuple _ => true
  | _ => false

def isMap : Value → Bool
  | map _ => true
  | _ => false

def isFunction : Value → Bool
  | function .. => true
  | _ => false

def isPid : Value → Bool
  | pid _ => true
  | _ => false

def isReference : Value → Bool
  | reference _ => true
  | _ => false

/-- Whether a value is a record of the named struct. -/
def isRecordOf (name : String) : Value → Bool
  | record typeName _ => typeName == name
  | _ => false

/-! ## Contents -/

def int? : Value → Option Int
  | int n => some n
  | _ => none

/-- The number a value stands for; an integer is rounded to a double. -/
def float? : Value → Option Float
  | float x => some x
  | int n => some (Float.ofInt n)
  | _ => none

def bool? : Value → Option Bool
  | bool b => some b
  | _ => none

def text? : Value → Option String
  | text s => some s
  | _ => none

/-! ## Structural equality -/

mutual

/-- Structural equality. -/
def same : Value → Value → Bool
  | int a, int b => a == b
  | float a, float b => a == b
  | bool a, bool b => a == b
  | text a, text b => a == b
  | binary a, binary b => a == b
  | atom a, atom b => a == b
  | nil, nil => true
  | list a, list b => sameItems a b
  | tuple a, tuple b => sameItems a b
  | map a, map b => a.length == b.length && entriesAmong a b
  | function o n a, function o' n' a' => o == o' && n == n' && a == a'
  | pid a, pid b => a == b
  | reference a, reference b => a == b
  | record t a, record t' b => t == t' && sameFields a b
  | _, _ => false

/-- Equal values at equal places. -/
def sameItems : List Value → List Value → Bool
  | [], [] => true
  | a :: as, b :: bs => same a b && sameItems as bs
  | _, _ => false

/-- Every entry has an equal one among `others`. -/
def entriesAmong : List (Value × Value) → List (Value × Value) → Bool
  | [], _ => true
  | (k, v) :: rest, others =>
      others.any (fun other => same k other.1 && same v other.2) && entriesAmong rest others

/-- Equal names and values at equal places. -/
def sameFields : List (String × Value) → List (String × Value) → Bool
  | [], [] => true
  | (n, a) :: as, (n', b) :: bs => n == n' && same a b && sameFields as bs
  | _, _ => false

end

/-! ## Maps and records -/

/-- Sets the value of a key: the entry stays in its place if the key is there, and comes last
otherwise. -/
def insertEntry (key value : Value) : List (Value × Value) → List (Value × Value)
  | [] => [(key, value)]
  | (k, v) :: rest =>
      if same k key then (k, value) :: rest else (k, v) :: insertEntry key value rest

/-- The map of a list of entries; of entries with equal keys the first gives the place and the
last the value. -/
def ofEntries (entries : List (Value × Value)) : Value :=
  map (entries.foldl (fun found entry => insertEntry entry.1 entry.2 found) [])

/-- A key that differs from all keys there comes last. -/
theorem insertEntry_of_fresh {key value : Value} {entries : List (Value × Value)}
    (fresh : ∀ entry ∈ entries, same entry.1 key = false) :
    insertEntry key value entries = entries ++ [(key, value)] := by
  induction entries with
  | nil => rfl
  | cons entry rest ih =>
      rw [List.forall_mem_cons] at fresh
      simp [insertEntry, fresh.1, ih fresh.2]

/-- The map of entries whose keys differ has these entries, in this order. -/
theorem ofEntries_of_distinct {entries : List (Value × Value)}
    (distinct : entries.Pairwise fun a b => same a.1 b.1 = false) :
    ofEntries entries = .map entries := by
  -- The entries that are there already stand before those to come, and all keys differ.
  have general : ∀ before : List (Value × Value),
      (before ++ entries).Pairwise (fun a b => same a.1 b.1 = false) →
      entries.foldl (fun found entry => insertEntry entry.1 entry.2 found) before
        = before ++ entries := by
    clear distinct
    induction entries with
    | nil =>
        intro before _
        exact (List.append_nil before).symm
    | cons entry rest ih =>
        intro before distinct
        have fresh : ∀ other ∈ before, same other.1 entry.1 = false := by
          intro other member
          exact (List.pairwise_append.mp distinct).2.2 other member entry List.mem_cons_self
        rw [List.foldl_cons, insertEntry_of_fresh fresh, ih _ (by simpa using distinct)]
        simp
  rw [ofEntries, general [] distinct, List.nil_append]

/-- The value of a key in a list of entries. -/
def findEntry? (key : Value) (entries : List (Value × Value)) : Option Value :=
  (entries.find? fun entry => same entry.1 key).map Prod.snd

/-- The value of a key, if the value is a map that has it. -/
def mapGet? (v key : Value) : Option Value :=
  match v with
  | map entries => findEntry? key entries
  | _ => none

/-- The value of a field, if the value is a record that has it. -/
def field? (v : Value) (name : String) : Option Value :=
  match v with
  | record _ fields => (fields.find? fun field => field.1 == name).map Prod.snd
  | _ => none

/-- `{:ok, value}` -/
def ok (value : Value) : Value := tuple [atom "ok", value]

/-- `{:error, reason}` -/
def error (reason : Value) : Value := tuple [atom "error", reason]

end Value
end Clausal
