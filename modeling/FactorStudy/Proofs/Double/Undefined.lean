import FactorStudy.Series.Basic
import FactorStudy.Double
import FactorStudy.Proofs.Double.Magnitude

/-!
# The undefined double

There is one double that is not a number. Arithmetic with it on either side gives it again, so a
result that is defined had defined operands. Some operations are not like that: a power of it with
exponent 0 is 1, the larger of it and a number is the number, and no comparison with it holds. Where
the program uses one of these it asks first whether the operands are defined.
-/

namespace FactorStudy.Double

open Number
open Float.Model (UnpackedFloat)

/-- The double that is not a number. -/
theorem eq_nan_of_isNaN {x : Float} (h : x.isNaN = true) : x = nan := by
  have hmodel : x.toModel.unpack.isNaN = true := h
  have hx : x.toModel.unpack = .notANumber := by
    cases hu : x.toModel.unpack with
    | notANumber => rfl
    | infinity s => rw [hu] at hmodel; cases hmodel
    | zero s => rw [hu] at hmodel; cases hmodel
    | finite s m e hm => rw [hu] at hmodel; cases hmodel
  exact eq_of_unpack (hx.trans rfl)

@[simp] theorem isNaN_nan : isNaN (nan : Float) = true := rfl

@[simp] theorem isFinite_nan : isFinite (nan : Float) = false := rfl

/-- A finite double is defined. -/
theorem isNaN_of_isFinite {x : Float} (h : isFinite x = true) : isNaN x = false := by
  cases hx : isNaN x with
  | false => rfl
  | true =>
    rw [eq_nan_of_isNaN hx] at h
    cases h

/-- Only finite values are kept. -/
theorem isNaN_orNaN (x : Float) : isNaN (orNaN x) = !isFinite x := by
  unfold orNaN
  split
  · rename_i h
    rw [isNaN_of_isFinite h, h]
    rfl
  · rename_i h
    rw [Bool.not_eq_true] at h
    rw [h]
    rfl

/-- What is kept is what was there. -/
theorem orNaN_eq_self {x : Float} (h : isFinite x = true) : orNaN x = x := if_pos h

theorem orNaN_eq_nan {x : Float} (h : isFinite x = false) : orNaN x = nan := by
  rw [orNaN, h, if_neg Bool.false_ne_true]

theorem isFinite_of_isNaN_orNaN {x : Float} (h : isNaN (orNaN x) = false) : isFinite x = true := by
  rw [isNaN_orNaN, Bool.not_eq_false'] at h
  exact h

/-- A value that may be missing is the value itself, where it is finite. -/
theorem finite?_eq_some_iff {x r : Float} : finite? x = some r ↔ x = r ∧ isFinite r = true := by
  unfold finite?
  split
  · rename_i h
    constructor
    · intro hx
      obtain rfl := Option.some.inj hx
      exact ⟨rfl, h⟩
    · rintro ⟨rfl, -⟩
      rfl
  · rename_i h
    constructor
    · intro hx
      cases hx
    · rintro ⟨rfl, hfinite⟩
      exact absurd hfinite h

/-! ## Arithmetic -/

/-- An operation that gives nothing defined on the undefined double has defined operands where its
result is defined. -/
theorem defined_of_absorbing (f : Float → Float → Float) (hleft : ∀ y, f nan y = nan)
    (hright : ∀ x, f x nan = nan) {x y : Float} (h : isNaN (f x y) = false) :
    isNaN x = false ∧ isNaN y = false := by
  constructor
  · by_contra hx
    rw [Bool.not_eq_false] at hx
    rw [eq_nan_of_isNaN hx, hleft] at h
    cases h
  · by_contra hy
    rw [Bool.not_eq_false] at hy
    rw [eq_nan_of_isNaN hy, hright] at h
    cases h

theorem sub_nan (x : Float) : x - nan = nan := by
  have hsub : x.toModel.unpack.sub .binary64 .notANumber = .notANumber := by
    cases x.toModel.unpack <;> rfl
  exact congrArg (fun u => Float.ofModel (.pack u)) hsub

theorem div_nan (x : Float) : x / nan = nan := by
  have hdiv : x.toModel.unpack.div .binary64 .notANumber = .notANumber := by
    cases x.toModel.unpack <;> rfl
  exact congrArg (fun u => Float.ofModel (.pack u)) hdiv

/-- A difference that is defined has defined sides. -/
theorem defined_of_sub {x y : Float} (h : isNaN (x - y) = false) :
    isNaN x = false ∧ isNaN y = false :=
  defined_of_absorbing (fun a b => a - b) (fun _ => rfl) sub_nan h

/-- So has a quotient. -/
theorem defined_of_div {x y : Float} (h : isNaN (x / y) = false) :
    isNaN x = false ∧ isNaN y = false :=
  defined_of_absorbing (fun a b => a / b) (fun _ => rfl) div_nan h

end FactorStudy.Double

namespace FactorStudy.FactorSeries

open Number

/-- The defined values of a factor are finite. -/
theorem isFinite_of_defined (s : FactorSeries Float) {v : Float} (hv : v ∈ Series.defined s.values) :
    isFinite v = true := by
  obtain ⟨hmem, hdef⟩ := List.mem_filter.mp hv
  obtain hfinite | rfl := s.clean v hmem
  · exact hfinite
  · cases hdef

end FactorStudy.FactorSeries
