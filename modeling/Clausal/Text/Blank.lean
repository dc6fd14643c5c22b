import Clausal.Text.Range

/-!
# Blank characters

The characters with the Unicode property `White_Space`, and texts without those at their ends.
-/

namespace Clausal
namespace Text

def blankRanges : Ranges :=
  [(0x9, 0xd), (0x20, 0x20), (0x85, 0x85), (0xa0, 0xa0), (0x1680, 0x1680), (0x2000, 0x200a),
   (0x2028, 0x2029), (0x202f, 0x202f), (0x205f, 0x205f), (0x3000, 0x3000)]

def isBlank (c : Char) : Bool := blankRanges.holds c

/-- A text without the blanks at its start and end. -/
def trim (text : String) : String :=
  let started := text.toList.dropWhile isBlank
  String.ofList (started.reverse.dropWhile isBlank).reverse

end Text
end Clausal
