import FactorStudy.Series.Transform
import FactorStudy.Error

/-!
# Combining factors

Factors on different scales are standardized and then added up with their weights. Where a factor
is undefined it contributes nothing; where all are, so is the combination.
-/

namespace FactorStudy

open Number Series

/-- A factor of a combination as it is asked for. -/
structure WeightedFactor where
  expression : String
  weight : Float

namespace WeightedFactor

/-- A combination has a factor, and every weight is finite; the first fault counts. -/
def checkAll (factors : List WeightedFactor) : Outcome Unit :=
  if factors.isEmpty then .error .emptyCombination
  else
    match factors.find? fun f => !f.weight.isFinite with
    | some f => .error (.invalidWeight f.expression f.weight)
    | none => .ok ()

/-- The text before and after its last equals sign. -/
def splitLast? (s : List Char) : Option (List Char × List Char) :=
  let after := (s.reverse.takeWhile (· ≠ '=')).reverse
  match s.reverse.dropWhile (· ≠ '=') with
  | [] => none
  | _ :: before => some (before.reverse, after)

/-- Reads an expression, with its weight after an equals sign or with weight 1. -/
def read (s : String) : Outcome WeightedFactor :=
  let trimmed (t : List Char) : String := String.ofList (Text.trimBlank t)
  match splitLast? s.toList with
  | none => .ok ⟨trimmed s.toList, 1⟩
  | some (expression, weight) =>
    match Decimal.readFloat (Text.trimBlank weight) with
    | .ok w => .ok ⟨trimmed expression, w⟩
    | .error _ => .error (.invalidWeight (trimmed expression) nan)

end WeightedFactor

namespace Combination

variable {α : Type} [Number α]

/-- What has been added up at a position, and whether anything has. -/
structure Tally (α : Type) where
  total : α
  covered : Bool

namespace Tally

/-- Takes in a weighted value, if it is defined. -/
def add (weight v : α) (t : Tally α) : Tally α :=
  if isNaN v then t else ⟨t.total + weight * v, true⟩

/-- The sum, undefined where nothing has been added. -/
def value (t : Tally α) : α := if t.covered then t.total else nan

end Tally

/-- Takes in a part, position by position. -/
def addPart (tallies : Array (Tally α)) (part : FactorSeries α × α) : Array (Tally α) :=
  (standardize part.1.values).zipIdx.foldl (fun tallies (v, i) => tallies.modify i (.add part.2 v))
    tallies

/-- The length of the longest part. -/
def size (parts : List (FactorSeries α × α)) : Nat := (parts.map fun (s, _) => s.size).foldl max 0

/-- The weighted sum of standardized series, as long as the longest of them. -/
def combine (parts : List (FactorSeries α × α)) : FactorSeries α :=
  let tallies := parts.foldl addPart (.replicate (size parts) ⟨0, false⟩)
  .ofValues (tallies.toList.map Tally.value)

end Combination

end FactorStudy
