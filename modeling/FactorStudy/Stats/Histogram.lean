import FactorStudy.Series.Rolling

/-!
# Histograms

Values counted in bins of equal width between the least and the greatest. Each bin holds its lower
edge, and the last one also the greatest value.
-/

namespace FactorStudy.Histogram

open Number Series

variable {α : Type} [Number α]

/-- The bin of a value. -/
def binOf (lo width : α) (bins : Nat) (v : α) : Nat := min (floorNat ((v - lo) / width)) (bins - 1)

/-- The lower edge and the number of values of each bin. Equal values make a single bin, and there
are none unless more than `threshold` values are defined.

There can be any number of bins here. A program keeps the counts in a table of machine words, which
for `2 ^ 60` bins or more takes up more bytes than it can ask for, so it ends before that; with less
memory it ends sooner. -/
def counts (x : List α) (bins threshold : Nat) : List (α × Nat) :=
  let values := defined x
  if values.length ≤ threshold ∨ bins = 0 then []
  else
    let lo := least values
    let hi := greatest values
    if lo < hi then
      let width := (hi - lo) / ofNat bins
      let places := values.map (binOf lo width bins)
      (List.range bins).map fun i => (lo + ofNat i * width, places.count i)
    else [(lo, values.length)]

end FactorStudy.Histogram
