/-!
Classes of characters given by ranges of code points.
-/

namespace StpLang.Text

/-- The character lies in one of the closed ranges. -/
def inRanges (ranges : Array (Nat × Nat)) (c : Char) : Bool :=
  ranges.any fun r => r.1 ≤ c.toNat && c.toNat ≤ r.2

end StpLang.Text
