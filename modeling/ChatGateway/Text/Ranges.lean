/-!
# Ranges of characters

A class of characters is a list of ranges of code points, both ends included.
-/

namespace ChatGateway.Text

def inRanges (ranges : List (Nat × Nat)) (c : Char) : Bool :=
  ranges.any fun (low, high) => low ≤ c.toNat && c.toNat ≤ high

end ChatGateway.Text
