/-! # Ranges of characters

A set of characters is written as the ranges of their code points, from the lowest to the highest,
so that a search may stop early. -/

namespace GenericCalls.Text

/-- Whether a number lies in one of the ranges, which are given in ascending order. -/
def inRanges (n : Nat) : List (Nat × Nat) → Bool
  | [] => false
  | (low, high) :: rest =>
    if n < low then false
    else if n ≤ high then true
    else inRanges n rest

end GenericCalls.Text
