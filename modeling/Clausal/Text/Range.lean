/-!
# Character ranges

A class of characters is given as a list of ranges of code points, both ends included, in
ascending order.
-/

namespace Clausal
namespace Text

abbrev Ranges := List (Nat × Nat)

/-- Whether a character lies in one of the ranges.  The search ends at the first range above it. -/
def Ranges.holds : Ranges → Char → Bool
  | [], _ => false
  | (low, high) :: rest, c => low ≤ c.toNat && (c.toNat ≤ high || holds rest c)

end Text
end Clausal
