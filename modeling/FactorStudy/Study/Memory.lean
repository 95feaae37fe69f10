import FactorStudy.Study.Request

/-!
# Stores of panels

What a store of panels has is a listing: for each symbol the texts of its bar lengths. Symbols and
texts are in the order of their characters, and nothing is listed twice.

The simplest store is panels at hand. What they answer to a query, the others are compared with.
-/

namespace FactorStudy

/-! ## Listings -/

/-- The texts of the bar lengths of each symbol. -/
abbrev Listing := List (String × List String)

namespace Listing

/-- The order of symbols, and of texts for the same symbol. -/
def before (a b : String × String) : Bool :=
  decide (a.1 < b.1) || (a.1 == b.1 && decide (a.2 ≤ b.2))

/-- Puts a symbol with a bar length in front. -/
def add (entry : String × String) : Listing → Listing
  | [] => [(entry.1, [entry.2])]
  | (symbol, texts) :: rest =>
    if entry.1 = symbol then (symbol, entry.2 :: texts) :: rest
    else (entry.1, [entry.2]) :: (symbol, texts) :: rest

/-- The listing of symbols with a bar length each. -/
def ofPairs (pairs : List (String × String)) : Listing :=
  (pairs.mergeSort before).eraseReps.foldr add []

end Listing

/-! ## Panels at hand -/

/-- The bars of the panels that a query is about, panel after panel. -/
def Query.select (q : Query) (panels : List (Panel Float)) : List (Bar Float) :=
  (panels.filter fun p => p.symbol == q.symbol && p.interval == q.interval).flatMap fun p =>
    p.bars.filter fun b => b.timestamp.inRange q.start q.finish

/-- The panel of bars found for a query; finding none is a failure. -/
def Query.panelOf (q : Query) (bars : List (Bar Float)) : Outcome (Panel Float) :=
  if bars.isEmpty then .error (.noData q.symbol q.interval)
  else (Panel.of q.symbol q.interval bars).mapError (Error.invalidPanel q.symbol)

/-- Answers a query from panels at hand. -/
def Query.answer (q : Query) (panels : List (Panel Float)) : Outcome (Panel Float) :=
  q.panelOf (q.select panels)

end FactorStudy
