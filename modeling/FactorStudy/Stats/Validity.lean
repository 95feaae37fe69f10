import FactorStudy.Double
import FactorStudy.Decimal.Text

/-!
# Is a factor any good?

Five tests that a factor should pass before anyone trusts it, and a sentence that names the ones it
fails.
-/

namespace FactorStudy

/-- The outcomes of the five tests. -/
structure ValidityChecks where
  icSignificance : Bool
  icMeaningful : Bool
  positiveSharpe : Bool
  aboveRandom : Bool
  sufficientData : Bool
deriving DecidableEq, Repr

def ValidityChecks.allPass (c : ValidityChecks) : Bool :=
  c.icSignificance && c.icMeaningful && c.positiveSharpe && c.aboveRandom && c.sufficientData

namespace Validity

/-- What the tests look at. -/
structure Evidence where
  tStat : Float
  icMean : Float
  sharpe : Float
  winRate : Float
  observations : Nat
  minObservations : Nat

def criticalT : Float := 1.96

def meaningfulIc : Float := 0.01

/-- A win rate that chance alone can reach. -/
def randomWinRate : Float := 0.48

def checks (e : Evidence) : ValidityChecks where
  icSignificance := decide (criticalT < e.tStat.abs)
  icMeaningful := decide (meaningfulIc < e.icMean.abs)
  positiveSharpe := decide (0 < e.sharpe)
  aboveRandom := decide (randomWinRate < e.winRate)
  sufficientData := decide (e.minObservations < e.observations)

/-- One clause for each failed test. -/
def failures (e : Evidence) : List String :=
  let c := checks e
  let clause (passed : Bool) (text : String) : List String := if passed then [] else [text]
  clause c.icSignificance
      ("ic_significance (|t| = " ++ Decimal.fixed 2 e.tStat.abs ++ ", needs > " ++
        Decimal.plain criticalT ++ ")")
    ++ clause c.icMeaningful
      ("ic_meaningful (|ic| = " ++ Decimal.fixed 4 e.icMean.abs ++ ", needs > " ++
        Decimal.plain meaningfulIc ++ ")")
    ++ clause c.positiveSharpe ("positive_sharpe (sharpe = " ++ Decimal.fixed 2 e.sharpe ++ ")")
    ++ clause c.aboveRandom
      ("above_random (win rate = " ++ Decimal.fixed 1 (e.winRate * 100) ++ "%, needs > " ++
        Decimal.fixed 0 (randomWinRate * 100) ++ "%)")
    ++ clause c.sufficientData
      (s!"sufficient_data ({e.observations} observations, needs > {e.minObservations})")

/-- Why a factor passes or fails. -/
def reason (e : Evidence) : String :=
  match failures e with
  | [] => "passed all validity checks"
  | clauses => "failed: " ++ "; ".intercalate clauses

end Validity

end FactorStudy
