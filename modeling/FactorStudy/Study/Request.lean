import FactorStudy.Study.Analysis
import FactorStudy.Study.Combination

/-!
# Requests

A request is checked as far as possible before any data is fetched. Data is then fetched once, and
everything else is computed from it.

The source of data is a function in any monad, so that a request can be run against a table in
memory, against files, or against a source that keeps a record of what it was asked.
-/

namespace FactorStudy

/-- What a source of prices is asked for. -/
structure Query where
  symbol : String
  interval : Interval
  start : Option Timestamp
  finish : Option Timestamp

/-- A source of prices. -/
abbrev Source (m : Type → Type) := Query → m (Outcome (Panel Float))

/-- What a backtest is asked to run on. -/
structure Scope where
  query : Query
  periods : UInt64
  quantile : Nat

/-- The expression of a text, with acceptable windows. -/
def Expr.check (text : String) : Outcome Expr := do
  let e ← (Expr.parse text).mapError Error.parse
  e.checkWindows.mapError Error.window
  return e

namespace Study

variable {m : Type → Type} [Monad m]

/-- The backtest a request asks for. -/
def configOf (settings : Settings) (scope : Scope) : Outcome (BacktestConfig Float) :=
  BacktestConfig.of scope.periods scope.quantile (settings.annualization scope.query.interval)

/-- The factor of an expression on a panel. -/
def factorOn (settings : Settings) (panel : Panel Float) (e : Expr) :
    Outcome (FactorSeries Float) :=
  (e.evaluate settings.windowPolicy panel).mapError Error.window

/-- Whether the program stops while it computes factors one after the other on a panel. The first
factor that is turned down ends the request before the next one is computed. -/
def abortsOn (settings : Settings) (panel : Panel Float) : List Expr → Bool
  | [] => false
  | e :: es =>
    match factorOn settings panel e with
    | .error _ => false
    | .ok _ => e.aborts panel || abortsOn settings panel es

/-- Whether a request for the factors of texts that were accepted stops the program on a panel. -/
def aborts (settings : Settings) (texts : List String) (panel : Panel Float) : Bool :=
  abortsOn settings panel (texts.filterMap fun text => (Expr.check text).toOption)

/-- Runs what is left of a request once its checks have passed: fetches the panel and goes on with
it. A request that failed its checks fetches nothing. -/
def fetching {α β : Type} (source : Source m) (query : Query) (checked : Outcome α)
    (rest : α → Panel Float → Outcome β) : m (Outcome β) :=
  match checked with
  | .error e => pure (.error e)
  | .ok a => do
    match ← source query with
    | .error e => return .error e
    | .ok panel => return rest a panel

/-- The checks of a single factor: the expression, then the backtest. -/
def checkSingle (settings : Settings) (expression : String) (scope : Scope) :
    Outcome (Expr × BacktestConfig Float) := do
  let e ← Expr.check expression
  let config ← configOf settings scope
  return (e, config)

/-- Evaluates one factor. -/
def evaluate [TDistribution] (source : Source m) (settings : Settings) (expression : String) (scope : Scope) :
    m (Outcome BacktestResult) :=
  fetching source scope.query (checkSingle settings expression scope) fun (e, config) panel => do
    let factor ← factorOn settings panel e
    return Analysis.run factor panel config settings

/-- The checks of a combination: its weights, its expressions in order, then the backtest. -/
def checkCombination (settings : Settings) (factors : List WeightedFactor) (scope : Scope) :
    Outcome (List Expr × BacktestConfig Float) := do
  WeightedFactor.checkAll factors
  let es ← factors.mapM fun f => Expr.check f.expression
  let config ← configOf settings scope
  return (es, config)

/-- Evaluates a weighted combination of factors. -/
def combine [TDistribution] (source : Source m) (settings : Settings)
    (factors : List WeightedFactor) (scope : Scope) : m (Outcome CombinationResult) :=
  fetching source scope.query (checkCombination settings factors scope) fun (es, config) panel => do
    let series ← es.mapM (factorOn settings panel)
    let combined := Combination.combine (series.zip (factors.map (·.weight)))
    return {
      result := Analysis.run combined panel config settings
      factorDetails := series.zipWith (fun s f =>
        ⟨f.expression, f.weight, Analysis.factorIc s panel config.periods settings.icWindow⟩)
        factors }

end Study

end FactorStudy
