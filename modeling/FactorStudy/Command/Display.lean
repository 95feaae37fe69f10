import FactorStudy.Expr.Builtin
import FactorStudy.Study.Memory
import FactorStudy.Report.Basic
import FactorStudy.Study.Combination

/-!
# What commands print

Each result has a layout of lines. Columns are filled up with blanks, on the side away from the edge
they are aligned with; a text that is longer than its column is printed whole.
-/

namespace FactorStudy.Display

/-- So many blanks. -/
def blanks (n : Nat) : String := String.ofList (List.replicate n ' ')

/-- A text at the left edge of a column. -/
def left (width : Nat) (s : String) : String := s ++ blanks (width - s.toList.length)

/-- A text at the right edge of a column. -/
def right (width : Nat) (s : String) : String := blanks (width - s.toList.length) ++ s

/-- A number with so many places at the right edge of a column. -/
def number (width places : Nat) (x : Float) : String := right width (Decimal.fixed places x)

/-- A share of 1 as a percentage, without the sign for it. -/
def percent (places : Nat) (x : Float) : String := Decimal.fixed places (x * 100)

def yesNo (b : Bool) : String := if b then "true" else "false"

/-- The figures of a study that goes by a label. -/
def metrics (label : String) (m : Metrics) : List String :=
  let fixed := Decimal.fixed
  [ "Factor:        " ++ label,
    s!"Observations:  {m.numObservations}",
    "IC:            mean " ++ fixed 4 m.icMean ++ "  std " ++ fixed 4 m.icStd ++ "  IR " ++
      fixed 3 m.icIr ++ "  t " ++ fixed 2 m.tStat ++ "  p " ++ fixed 4 m.pValue,
    "Long-short:    sharpe " ++ fixed 3 m.sharpe ++ "  sortino " ++ fixed 3 m.sortino ++
      "  win " ++ percent 1 m.winRate ++ "%  max dd " ++ percent 2 m.maxDrawdown ++ "%",
    s!"Quantiles:     {m.nQuantiles} layers  monotonic " ++
      yesNo m.quantileAnalysis.isMonotonic ++ "  spread " ++ fixed 5 m.quantileAnalysis.spread,
    "Score:         " ++ fixed 2 m.score,
    "Validity:      " ++ m.validityReason ]

/-- The part of a factor in a combination. -/
def detail (d : FactorDetail) : String :=
  "  " ++ left 40 d.expression ++ " weight " ++ number 7 3 d.weight ++ "  ic " ++ number 8 4 d.ic

/-- The label of a combination: its factors with their weights. -/
def combinationLabel (factors : List WeightedFactor) : String :=
  " + ".intercalate (factors.map fun f => Decimal.plain f.weight ++ "*" ++ f.expression)

/-- How a function is called. -/
def call (name : String) (f : Builtin) : String :=
  let series := (List.range f.seriesArity).map fun i => s!"x{i + 1}"
  name ++ "(" ++ ", ".intercalate (series ++ if f.hasWindow then ["n"] else []) ++ ")"

/-- A function by one of its names. -/
def function (name : String) (f : Builtin) : String :=
  left 28 (call name f) ++ " " ++
    (if name = f.name then f.description else "alias of " ++ f.name)

/-- The bar lengths of a symbol. -/
def symbol (name : String) (texts : List String) : String :=
  left 12 name ++ " " ++ ", ".intercalate texts

/-- A report in a list. -/
def summary (s : ReportSummary) : String :=
  right 3 (toString s.rank) ++ ". " ++ s.id ++ "  " ++ left 24 s.name ++
    " score " ++ number 6 2 s.score ++ "  ic " ++ number 8 4 s.icMean ++
    "  sharpe " ++ number 7 3 s.sharpe ++ "  win " ++ right 5 (percent 1 s.winRate) ++ "%  " ++
    (if s.isValidFactor then "valid" else "invalid")

end FactorStudy.Display
