/-!
# Configuration documents

The values of a TOML document.  While a document is read, its tables remember how they came to be:
a table may be opened by one header only, and dotted keys may add to no table but those that dotted
keys made.
-/

namespace Clausal
namespace Toml

inductive Value where
  | text (value : String)
  | int (value : Int)
  | float (value : Float)
  | bool (value : Bool)
  /-- A date, a time of day or both, as it is written. -/
  | moment (text : String)
  | array (items : List Value)
  | table (entries : List (String × Value))
  deriving Inhabited

def Value.table? : Value → Option (List (String × Value))
  | table entries => some entries
  | _ => none

/-- How a table came to be. -/
inductive Origin where
  /-- Mentioned on the way to another table. -/
  | passed
  /-- Opened by a header. -/
  | header
  /-- Made by a dotted key. -/
  | dotted
  deriving DecidableEq, Repr, Inhabited

/-- A part of a document that is being read. -/
inductive Node where
  | leaf (value : Value)
  | table (origin : Origin) (entries : List (String × Node))
  /-- A list of tables, each opened by a double header. -/
  | tables (items : List (List (String × Node)))
  deriving Inhabited

abbrev Entries := List (String × Node)

namespace Entries

/-- Replaces the node of a key. -/
def replace (key : String) (node : Node) : Entries → Entries
  | [] => []
  | (k, n) :: rest => if k == key then (k, node) :: rest else (k, n) :: replace key node rest

/-- Changes the last table of a list of tables. -/
def changeLast? (change : Entries → Option Entries) : List Entries → Option (List Entries)
  | [] => none
  | [last] => (change last).map ([·])
  | first :: rest => (changeLast? change rest).map (first :: ·)

/-- Enters a value under a dotted key that is not taken.  The key may lead through tables that were
mentioned on the way to others, but the table that gets the value must be one of dotted keys. -/
def insert? : (key : List String) → Value → Entries → Option Entries
  | [], _, _ => none
  | [key], value, entries =>
      if (entries.lookup key).isSome then none else some (entries ++ [(key, .leaf value)])
  | key :: rest, value, entries =>
      match entries.lookup key with
      | none => (insert? rest value []).map fun inner => entries ++ [(key, .table .dotted inner)]
      | some (.table .header _) => none
      | some (.table origin inner) =>
          if origin = .passed && rest.length = 1 then none
          else (insert? rest value inner).map fun inner => replace key (.table origin inner) entries
      | some (.tables items) =>
          if rest.length = 1 then none
          else
            (changeLast? (insert? rest value) items).map fun items =>
              replace key (.tables items) entries
      | some (.leaf _) => none

/-- Opens the table of a header. -/
def openTable? : (path : List String) → Entries → Option Entries
  | [], _ => none
  | [key], entries =>
      match entries.lookup key with
      | none => some (entries ++ [(key, .table .header [])])
      | some (.table .passed inner) => some (replace key (.table .header inner) entries)
      | some _ => none
  | key :: rest, entries =>
      match entries.lookup key with
      | none => (openTable? rest []).map fun inner => entries ++ [(key, .table .passed inner)]
      | some (.table origin inner) =>
          (openTable? rest inner).map fun inner => replace key (.table origin inner) entries
      | some (.tables items) =>
          (changeLast? (openTable? rest) items).map fun items => replace key (.tables items) entries
      | some (.leaf _) => none

/-- Adds a table to the list of tables of a double header. -/
def openElement? : (path : List String) → Entries → Option Entries
  | [], _ => none
  | [key], entries =>
      match entries.lookup key with
      | none => some (entries ++ [(key, .tables [[]])])
      | some (.tables items) => some (replace key (.tables (items ++ [[]])) entries)
      | some _ => none
  | key :: rest, entries =>
      match entries.lookup key with
      | none => (openElement? rest []).map fun inner => entries ++ [(key, .table .passed inner)]
      | some (.table origin inner) =>
          (openElement? rest inner).map fun inner => replace key (.table origin inner) entries
      | some (.tables items) =>
          (changeLast? (openElement? rest) items).map fun items =>
            replace key (.tables items) entries
      | some (.leaf _) => none

/-- Enters a value under a dotted key in the table at a path. -/
def insertUnder? : (path : List String) → (key : List String) → Value → Entries → Option Entries
  | [], key, value, entries => insert? key value entries
  | step :: path, key, value, entries =>
      match entries.lookup step with
      | some (.table origin inner) =>
          (insertUnder? path key value inner).map fun inner =>
            replace step (.table origin inner) entries
      | some (.tables items) =>
          (changeLast? (insertUnder? path key value) items).map fun items =>
            replace step (.tables items) entries
      | _ => none

end Entries

mutual

/-- The value of a node when the document is complete. -/
def Node.toValue : Node → Value
  | .leaf value => value
  | .table _ entries => .table (entriesValue entries)
  | .tables items => .array (tablesValue items)

def entriesValue : List (String × Node) → List (String × Value)
  | [] => []
  | (key, node) :: rest => (key, node.toValue) :: entriesValue rest

def tablesValue : List (List (String × Node)) → List Value
  | [] => []
  | entries :: rest => .table (entriesValue entries) :: tablesValue rest

end

/-! ## Sizes of integers -/

mutual

/-- Whether every integer in a value lies between two bounds, the upper one excluded. -/
def Value.intsWithin (low high : Int) : Value → Bool
  | .int n => low ≤ n && n < high
  | .array items => allIntsWithin low high items
  | .table entries => entriesIntsWithin low high entries
  | _ => true

def allIntsWithin (low high : Int) : List Value → Bool
  | [] => true
  | value :: rest => value.intsWithin low high && allIntsWithin low high rest

def entriesIntsWithin (low high : Int) : List (String × Value) → Bool
  | [] => true
  | (_, value) :: rest => value.intsWithin low high && entriesIntsWithin low high rest

end

end Toml
end Clausal
