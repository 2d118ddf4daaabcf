import ImageAudit.Text.Basic

/-!
# Character properties given by ranges

A property of characters is a list of closed ranges of code points, in ascending order.
-/

namespace ImageAudit.Text

/-- Whether a code point lies in one of the ranges. -/
def inRanges (table : List (Nat × Nat)) (n : Nat) : Bool :=
  table.any fun (lo, hi) => lo ≤ n && n ≤ hi

end ImageAudit.Text
