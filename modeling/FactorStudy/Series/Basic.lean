import FactorStudy.Number

/-!
# Series and their statistics

A series is a list of values, one per bar, in which `nan` marks a bar without a value. This module
has what the series functions are made of: cleaning, the mean and its relatives, percentiles,
correlation and ranks. Sums run from left to right and variances take a second pass over the
deviations, which fixes every rounding.
-/

namespace FactorStudy

open Number

variable {α : Type} [Number α]

namespace Series

/-- A series with infinities taken as undefined. -/
def clean (x : List α) : List α := x.map orNaN

/-- The entries that are defined, in order. -/
def defined (x : List α) : List α := x.filter fun v => !isNaN v

/-- The sum over the number of values. -/
def average (x : List α) : α := sum x / count x

/-- The mean, of at least one value. -/
def mean? (x : List α) : Option α := if x.isEmpty then none else some (average x)

/-- The sample variance, of at least two values. -/
def variance? (x : List α) : Option α :=
  if x.length < 2 then none
  else
    let m := average x
    some (sum (x.map fun v => (v - m) * (v - m)) / ofNat (x.length - 1))

/-- The sample standard deviation, of at least two values. -/
def std? (x : List α) : Option α := (variance? x).map sqrt

/-- The place in an ascending list of `size` values below which the fraction `q` of them lies. -/
def percentilePosition (size : Nat) (q : α) : α := clamp 0 1 q * ofNat (size - 1)

/-- The percentile at `q` of an ascending list, interpolated between the two nearest entries. -/
def percentile? (sorted : List α) (q : α) : Option α :=
  if sorted.isEmpty then none
  else
    let position := percentilePosition sorted.length q
    let lo := sorted.getD (floorNat position) nan
    let hi := sorted.getD (ceilNat position) nan
    some (lo + (hi - lo) * (position - ofNat (floorNat position)))

/-- The values in ascending order. -/
def ascending (x : List α) : List α := x.mergeSort totalLe

/-- A sum of products, from 0. -/
def dot (x y : List α) : α := (x.zipWith (· * ·) y).foldl (· + ·) 0

/-- The Pearson correlation of the pairs that two lists form, of at least two pairs and when
neither side is flat. -/
def pearson? (x y : List α) : Option α :=
  let n := min x.length y.length
  if n < 2 then none
  else
    let x := x.take n
    let y := y.take n
    let mx := average x
    let my := average y
    let dx := x.map (· - mx)
    let dy := y.map (· - my)
    let sxx := dot dx dx
    let syy := dot dy dy
    if sxx ≤ 0 ∨ syy ≤ 0 then none
    else (finite? (dot dx dy / (sqrt sxx * sqrt syy))).map (clamp (-1) 1)

/-- Gives each run of equal values in an ascending list the mean of the places it takes up, when
places are counted from `place`. -/
def rankRuns : Nat → List (α × Nat) → List (α × Nat)
  | _, [] => []
  | place, (v, i) :: rest =>
    let run := rest.takeWhile fun p => p.1 == v
    let shared : α := ofNat (place + (place + run.length)) / 2 + 1
    ((v, i) :: run).map (fun p => (shared, p.2)) ++
      rankRuns (place + 1 + run.length) (rest.dropWhile fun p => p.1 == v)
termination_by _ x => x.length
decreasing_by
  have := (List.dropWhile_sublist (fun p : α × Nat => p.1 == v) (l := rest)).length_le
  simp only [List.length_cons]
  omega

/-- The ranks of values from 1, equal values sharing the mean of their places. -/
def averageRanks (x : List α) : List α :=
  let ranked := rankRuns 0 (x.zipIdx.mergeSort fun p q => totalLe p.1 q.1)
  (ranked.mergeSort fun p q => decide (p.2 ≤ q.2)).map (·.1)

/-- The Spearman correlation: Pearson's of the ranks. -/
def spearman? (x y : List α) : Option α :=
  let n := min x.length y.length
  pearson? (averageRanks (x.take n)) (averageRanks (y.take n))

end Series

/-- The values of a factor, bar by bar: each finite, or undefined. -/
structure FactorSeries (α : Type) [Number α] where
  values : List α
  clean : ∀ v ∈ values, isFinite v = true ∨ v = nan

namespace FactorSeries

/-- A series of any values, with infinities taken as undefined. -/
def ofValues (x : List α) : FactorSeries α where
  values := Series.clean x
  clean := by
    intro v hv
    obtain ⟨u, -, rfl⟩ := List.mem_map.1 hv
    unfold orNaN
    split
    · exact Or.inl ‹_›
    · exact Or.inr rfl

/-- The same value at every bar. -/
def constant (v : α) (size : Nat) : FactorSeries α := ofValues (List.replicate size v)

/-- No value at any bar. -/
def undefined (size : Nat) : FactorSeries α where
  values := List.replicate size nan
  clean := fun _ hv => Or.inr (List.eq_of_mem_replicate hv)

def size (s : FactorSeries α) : Nat := s.values.length

/-- The value at a position, when there is one and it is defined. -/
def get? (s : FactorSeries α) (i : Nat) : Option α :=
  s.values[i]?.filter fun v => !isNaN v

def definedCount (s : FactorSeries α) : Nat := (Series.defined s.values).length

def allUndefined (s : FactorSeries α) : Bool := s.values.all isNaN

end FactorSeries

end FactorStudy
