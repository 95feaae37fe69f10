import FactorStudy.Panel.Interval
import FactorStudy.Time.Timestamp
import FactorStudy.Expr.Basic

/-!
# Price panels

A panel is the bars of one symbol at one bar length, in time order. The order is part of the type:
no two bars have the same time and none comes before its predecessor, so a position in a panel is a
moment, and later positions are later moments.
-/

namespace FactorStudy

/-- The prices of one bar. -/
structure Bar (α : Type) where
  timestamp : Timestamp
  «open» : α
  high : α
  low : α
  close : α
  volume : α

/-- A value of a bar by the name of its column. -/
def Bar.get {α : Type} (b : Bar α) : Column → α
  | .open => b.open
  | .high => b.high
  | .low => b.low
  | .close => b.close
  | .volume => b.volume

/-- A bar that does not come after the one before it. -/
structure Disorder where
  position : Nat
  later : Timestamp
  earlier : Timestamp
deriving DecidableEq

def Disorder.message (d : Disorder) : String :=
  s!"timestamps not strictly increasing at bar {d.position} " ++
    s!"({d.later.text} after {d.earlier.text})"

/-- The first bar out of order, when bars are counted from `position`. -/
def disorder? {α : Type} : Nat → List (Bar α) → Option Disorder
  | position, a :: b :: rest =>
    if b.timestamp ≤ a.timestamp then some ⟨position + 1, b.timestamp, a.timestamp⟩
    else disorder? (position + 1) (b :: rest)
  | _, _ => none

/-- Bars in strictly increasing time order. -/
def Increasing {α : Type} (bars : List (Bar α)) : Prop :=
  bars.Pairwise fun a b => a.timestamp < b.timestamp

theorem increasing_of_disorder?_eq_none {α : Type} {bars : List (Bar α)} :
    ∀ {position : Nat}, disorder? position bars = none → Increasing bars := by
  induction bars with
  | nil => intro _ _; exact List.Pairwise.nil
  | cons a rest ih =>
    intro position h
    cases rest with
    | nil => exact List.pairwise_singleton _ _
    | cons b rest =>
      rw [disorder?] at h
      split at h
      · simp at h
      · rename_i hlt
        have hab : a.timestamp < b.timestamp := Int.lt_of_not_ge hlt
        have hrest := ih h
        refine List.Pairwise.cons (fun c hc => ?_) hrest
        rcases List.mem_cons.1 hc with rfl | hc
        · exact hab
        · exact Int.lt_trans hab ((List.pairwise_cons.1 hrest).1 c hc)

/-- The bars of one symbol at one bar length. -/
structure Panel (α : Type) where
  symbol : String
  interval : Interval
  bars : List (Bar α)
  increasing : Increasing bars

namespace Panel

variable {α : Type}

/-- The panel of bars that are in order. -/
def of (symbol : String) (interval : Interval) (bars : List (Bar α)) :
    Except Disorder (Panel α) :=
  match h : disorder? 0 bars with
  | none => .ok ⟨symbol, interval, bars, increasing_of_disorder?_eq_none h⟩
  | some d => .error d

/-- The number of bars. -/
def size (p : Panel α) : Nat := p.bars.length

/-- The values of a column, bar by bar. -/
def column (p : Panel α) (c : Column) : List α := p.bars.map (·.get c)

def timestamps (p : Panel α) : List Timestamp := p.bars.map (·.timestamp)

end Panel

end FactorStudy
