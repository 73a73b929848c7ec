/-!
# PartProgram.Text.Range

Sets of characters as closed ranges of code points, ascending and apart.
-/

namespace PartProgram.Text

def inRanges (ranges : List (Nat × Nat)) (n : Nat) : Bool :=
  ranges.any fun r => r.1 ≤ n && n ≤ r.2

end PartProgram.Text
