import Clausal.Regex.CharSet

/-!
# Flags of regular expressions

Flags change how the parts of an expression are read: what case means, where lines end, and whether
blanks count.
-/

namespace Clausal
namespace Regex

/-- How the parts of an expression are read. -/
structure Flags where
  ignoreCase : Bool := false
  /-- Whether `^` and `$` hold at the ends of every line. -/
  multiLine : Bool := false
  /-- Whether `.` stands for a newline too. -/
  dotAll : Bool := false
  /-- Whether a carriage return ends a line. -/
  paired : Bool := false
  /-- Whether blanks and comments between the parts are passed over. -/
  verbose : Bool := false
  /-- Whether case, digits, word characters and blanks are those of all scripts. -/
  unicode : Bool := true
  deriving DecidableEq, Repr, Inhabited

namespace Flags

/-- Sets the flag of a letter.  `U` changes which match is preferred, not whether there is one. -/
def set? (flags : Flags) (letter : Char) (value : Bool) : Option Flags :=
  match letter with
  | 'i' => some { flags with ignoreCase := value }
  | 'm' => some { flags with multiLine := value }
  | 's' => some { flags with dotAll := value }
  | 'R' => some { flags with paired := value }
  | 'x' => some { flags with verbose := value }
  | 'u' => some { flags with unicode := value }
  | 'U' => some flags
  | _ => none

/-- A set as it is under the flags. -/
def fold (flags : Flags) (set : CharSet) : CharSet :=
  if !flags.ignoreCase then set
  else if flags.unicode then .ignoringCase set
  else .ignoringAsciiCase set

def digit (flags : Flags) : CharSet := if flags.unicode then .digit else .asciiDigit

def word (flags : Flags) : CharSet := if flags.unicode then .word else .asciiWord

def blank (flags : Flags) : CharSet := if flags.unicode then .blank else .asciiBlank

/-- What `.` does not stand for. -/
def lineBreaks (flags : Flags) : CharSet :=
  if flags.dotAll then .nothing
  else if flags.paired then .union [.single '\r', .newline]
  else .newline

end Flags

/-- Passes over blanks, and over comments, which run to the end of their line. -/
def dropVerbose : (inComment : Bool) → List Char → List Char
  | _, [] => []
  | true, c :: cs => dropVerbose (c != '\n') cs
  | false, c :: cs =>
      if c == '#' then dropVerbose true cs
      else if Text.isBlank c then dropVerbose false cs
      else c :: cs

/-- The text from the next part on. -/
def Flags.skip (flags : Flags) (cs : List Char) : List Char :=
  if flags.verbose then dropVerbose false cs else cs

end Regex
end Clausal
