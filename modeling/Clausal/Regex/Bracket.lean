import Clausal.Regex.Escape

/-!
# Sets between brackets

Characters, ranges, escapes and further brackets side by side are a union; two unions may be
combined by `&&`, `--` and `~~`, which all bind alike and group to the left.
-/

namespace Clausal
namespace Regex

/-- One end of a range, or a whole item of a set. -/
def anyItem (flags : Flags) : List Char → Option (Primitive × List Char)
  | [] => none
  | '\\' :: cs => escape flags cs
  | c :: cs => some (.literal c, cs)

/-- Whether an item may stand in a set; without all scripts at hand characters must be ASCII. -/
def Primitive.fits (flags : Flags) : Primitive → Bool
  | literal c => flags.unicode || isAsciiChar c
  | _ => true

def setItem (flags : Flags) (cs : List Char) : Option (Primitive × List Char) :=
  (anyItem flags cs).filter fun (item, _) => item.fits flags

/-- The set that an item stands for on its own. -/
def Primitive.set? : Primitive → Option CharSet
  | literal c => some (.single c)
  | set members => some members
  | assertion _ => none

/-- The range between two ends. -/
def rangeOf? : Primitive → Primitive → Option CharSet
  | .literal low, .literal high => if low ≤ high then some (.range low high) else none
  | _, _ => none

/-- An item of a set, or a range.  A dash before the closing bracket or another dash makes no
range. -/
def setRange (flags : Flags) (cs : List Char) : Option (CharSet × List Char) := do
  let (item, rest) ← setItem flags cs
  match flags.skip rest with
  | '-' :: after =>
      match flags.skip after with
      | [] => none
      | ']' :: _ => return (← item.set?, '-' :: after)
      | '-' :: _ => return (← item.set?, '-' :: after)
      | after =>
          let (other, rest) ← setItem flags after
          return (← rangeOf? item other, rest)
  | rest => return (← item.set?, rest)

/-- A set that is named between colons, after the opening bracket of its own. -/
def namedSet? (flags : Flags) : List Char → Option (CharSet × List Char)
  | ':' :: cs =>
      let (negated, cs) := match cs with
        | '^' :: cs => (true, cs)
        | cs => (false, cs)
      match cs.dropWhile (· != ':') with
      | ':' :: ']' :: rest =>
          (CharSet.ascii? (String.ofList (cs.takeWhile (· != ':')))).map fun set =>
            (if negated then .complement (flags.fold set) else flags.fold set, rest)
      | _ => none
  | _ => none

/-- The dashes at the start of a set, which stand for themselves. -/
def leadingDashes (flags : Flags) : (limit : Nat) → List Char → List CharSet × List Char
  | 0, cs => ([], cs)
  | limit + 1, cs =>
      match flags.skip cs with
      | '-' :: rest =>
          let (found, rest) := leadingDashes flags limit rest
          (.single '-' :: found, rest)
      | rest => ([], rest)

/-- What stands for itself at the start of a set: dashes, or else a closing bracket. -/
def setStart (flags : Flags) (cs : List Char) : List CharSet × List Char :=
  match leadingDashes flags cs.length cs with
  | ([], ']' :: rest) => ([.single ']'], rest)
  | found => found

/-- The set of the items read so far, combined with what came before them. -/
def joined (flags : Flags) (pending : Option (SetOp × CharSet)) (items : List CharSet) : CharSet :=
  match pending with
  | none => .ofList items
  | some (op, left) => .combined op (flags.fold left) (flags.fold (.ofList items))

mutual

/-- The rest of a set: `items` were read, and `pending` waits for its right side. -/
def setBody (flags : Flags) : (limit : Nat) → (pending : Option (SetOp × CharSet)) →
    (items : List CharSet) → List Char → Option (CharSet × List Char)
  | 0, _, _, _ => none
  | limit + 1, pending, items, cs =>
      match flags.skip cs with
      | [] => none
      | ']' :: rest => some (joined flags pending items, rest)
      | '&' :: '&' :: rest =>
          setBody flags limit (some (.intersection, joined flags pending items)) [] rest
      | '-' :: '-' :: rest =>
          setBody flags limit (some (.difference, joined flags pending items)) [] rest
      | '~' :: '~' :: rest =>
          setBody flags limit (some (.symmetricDifference, joined flags pending items)) [] rest
      | '[' :: rest =>
          match (namedSet? flags rest).or (bracket flags limit rest) with
          | some (set, rest) => setBody flags limit pending (items ++ [set]) rest
          | none => none
      | rest =>
          match setRange flags rest with
          | some (set, rest) => setBody flags limit pending (items ++ [set]) rest
          | none => none

/-- A set after its opening bracket. -/
def bracket (flags : Flags) : (limit : Nat) → List Char → Option (CharSet × List Char)
  | 0, _ => none
  | limit + 1, cs =>
      let (negated, cs) := match flags.skip cs with
        | '^' :: rest => (true, rest)
        | rest => (false, rest)
      let (items, cs) := setStart flags cs
      (setBody flags limit none items cs).map fun (set, rest) =>
        (.bracketed (if negated then .complement (flags.fold set) else flags.fold set), rest)

end

end Regex
end Clausal
