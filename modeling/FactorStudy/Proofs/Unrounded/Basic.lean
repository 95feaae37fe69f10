import FactorStudy.Number
import Mathlib.Analysis.SpecialFunctions.Pow.Real

/-!
# Unrounded numbers

The arithmetic of the formulas before rounding: a real number, an infinity or nothing that is
defined. What is left of doubles are the values that are not numbers, and these follow the rules
that doubles have for them. There is one zero, which divides as the positive one does, and no result
is too large or too small.

On real numbers the operations are those of the reals (`real_add` and the lemmas after it), so what
is computed from real numbers without a division by 0 is a real number.
-/

namespace FactorStudy

/-- A real number, an infinity, or no number. -/
inductive Unrounded where
  | real (x : ℝ)
  | infinity
  | negInfinity
  | undefined

namespace Unrounded

/-- A real number times infinity. -/
noncomputable def toward (x : ℝ) : Unrounded :=
  if 0 < x then infinity else if x < 0 then negInfinity else undefined

def neg : Unrounded → Unrounded
  | real x => real (-x)
  | infinity => negInfinity
  | negInfinity => infinity
  | undefined => undefined

noncomputable def add : Unrounded → Unrounded → Unrounded
  | real x, real y => real (x + y)
  | infinity, real _ | real _, infinity | infinity, infinity => infinity
  | negInfinity, real _ | real _, negInfinity | negInfinity, negInfinity => negInfinity
  | _, _ => undefined

noncomputable def mul : Unrounded → Unrounded → Unrounded
  | real x, real y => real (x * y)
  | real x, infinity | infinity, real x => toward x
  | real x, negInfinity | negInfinity, real x => toward (-x)
  | infinity, infinity | negInfinity, negInfinity => infinity
  | infinity, negInfinity | negInfinity, infinity => negInfinity
  | _, _ => undefined

noncomputable def div : Unrounded → Unrounded → Unrounded
  | real x, real y => if y = 0 then toward x else real (x / y)
  | real _, infinity | real _, negInfinity => real 0
  | infinity, real y => if 0 ≤ y then infinity else negInfinity
  | negInfinity, real y => if 0 ≤ y then negInfinity else infinity
  | _, _ => undefined

def lt : Unrounded → Unrounded → Prop
  | real x, real y => x < y
  | real _, infinity | negInfinity, real _ | negInfinity, infinity => True
  | _, _ => False

def le : Unrounded → Unrounded → Prop
  | real x, real y => x ≤ y
  | undefined, _ | _, undefined => False
  | negInfinity, _ | _, infinity => True
  | _, _ => False

noncomputable def beq : Unrounded → Unrounded → Bool
  | real x, real y => decide (x = y)
  | infinity, infinity | negInfinity, negInfinity => true
  | _, _ => false

/-- The order of sorting, with what is undefined at the end. -/
noncomputable def totalLe : Unrounded → Unrounded → Bool
  | _, undefined => true
  | undefined, _ => false
  | negInfinity, _ | _, infinity => true
  | real x, real y => decide (x ≤ y)
  | _, _ => false

noncomputable def sqrt : Unrounded → Unrounded
  | real x => if 0 ≤ x then real (Real.sqrt x) else undefined
  | infinity => infinity
  | _ => undefined

noncomputable def exp : Unrounded → Unrounded
  | real x => real (Real.exp x)
  | infinity => infinity
  | negInfinity => real 0
  | undefined => undefined

/-- The logarithm to the base whose natural logarithm is `base`. -/
noncomputable def log (base : ℝ) : Unrounded → Unrounded
  | real x => if 0 < x then real (Real.log x / base) else if x = 0 then negInfinity else undefined
  | infinity => infinity
  | _ => undefined

open Classical in
/-- A power of a real number. A negative number has only whole powers. -/
noncomputable def realPow (x y : ℝ) : Unrounded :=
  if x = 0 ∧ y < 0 then infinity
  else if x < 0 ∧ ¬ ∃ n : ℤ, y = n then undefined
  else real (x ^ y)

open Classical in
/-- A power that leads to infinity or to 0, or stays where it is, as the exponent does. -/
noncomputable def pow : Unrounded → Unrounded → Unrounded
  | real x, real y => realPow x y
  | real x, infinity =>
    if |x| < 1 then real 0 else if |x| = 1 then real 1 else infinity
  | real x, negInfinity =>
    if |x| < 1 then infinity else if |x| = 1 then real 1 else real 0
  | real x, undefined => if x = 1 then real 1 else undefined
  | infinity, real y => if 0 < y then infinity else if y < 0 then real 0 else real 1
  | negInfinity, real y =>
    if 0 < y then if ∃ n : ℤ, y = 2 * n + 1 then negInfinity else infinity
    else if y < 0 then real 0 else real 1
  | undefined, real y => if y = 0 then real 1 else undefined
  | infinity, infinity | negInfinity, infinity => infinity
  | infinity, negInfinity | negInfinity, negInfinity => real 0
  | _, _ => undefined

/-- The greatest count that is read. -/
def maxCount : ℕ := 2 ^ 64 - 1

/-- A count that is read from a number. -/
def toCount (round : ℝ → ℕ) : Unrounded → ℕ
  | real x => min (round x) maxCount
  | infinity => maxCount
  | _ => 0

end Unrounded

open Unrounded in
noncomputable instance : Number Unrounded where
  add := add
  sub a b := add a (neg b)
  mul := mul
  div := div
  neg := neg
  lt := lt
  le := le
  beq := beq
  ofScientific m s e := real (OfScientific.ofScientific m s e)
  ofNat n := real n
  nan := undefined
  infinity := infinity
  epsilon := real (2 ^ (-52 : ℤ))
  isNaN
    | undefined => true
    | _ => false
  isFinite
    | real _ => true
    | _ => false
  decLt _ _ := Classical.propDecidable _
  decLe _ _ := Classical.propDecidable _
  totalLe := totalLe
  abs
    | real x => real |x|
    | negInfinity => infinity
    | a => a
  sqrt := sqrt
  exp := exp
  log := log 1
  log10 := log (Real.log 10)
  pow := pow
  floorNat := toCount fun x => ⌊x⌋₊
  ceilNat := toCount fun x => ⌈x⌉₊

namespace Unrounded

open Number

variable (x y : ℝ)

@[simp] theorem real_add : real x + real y = real (x + y) := rfl

@[simp] theorem real_sub : real x - real y = real (x - y) := congrArg real (sub_eq_add_neg x y).symm

@[simp] theorem real_mul : real x * real y = real (x * y) := rfl

@[simp] theorem real_neg : -real x = real (-x) := rfl

theorem real_div {y : ℝ} (hy : y ≠ 0) : real x / real y = real (x / y) := if_neg hy

@[simp] theorem real_lt_real {x y : ℝ} : real x < real y ↔ x < y := Iff.rfl

@[simp] theorem real_le_real {x y : ℝ} : real x ≤ real y ↔ x ≤ y := Iff.rfl

@[simp] theorem real_beq_real {x y : ℝ} : (real x == real y) = true ↔ x = y := by
  show decide (x = y) = true ↔ x = y
  exact decide_eq_true_iff

theorem zero_eq : (0 : Unrounded) = real 0 := by
  show real ((0 : ℕ) : ℝ) = real 0
  rw [Nat.cast_zero]

theorem one_eq : (1 : Unrounded) = real 1 := by
  show real ((1 : ℕ) : ℝ) = real 1
  rw [Nat.cast_one]

theorem ofNat_eq (n : ℕ) [n.AtLeastTwo] : (OfNat.ofNat n : Unrounded) = real (OfNat.ofNat n) :=
  congrArg real Nat.cast_ofNat

theorem neg_one_eq : (-1 : Unrounded) = real (-1) := by
  rw [one_eq, real_neg]

@[simp] theorem isNaN_real : isNaN (real x) = false := rfl

@[simp] theorem isFinite_real : isFinite (real x) = true := rfl

@[simp] theorem orNaN_real : orNaN (real x) = real x := rfl

@[simp] theorem orZero_real : orZero (real x) = real x := rfl

@[simp] theorem smaller_real : smaller (real x) (real y) = real (min x y) := by
  rw [smaller, isNaN_real, isNaN_real, if_neg (by decide), if_neg (by decide)]
  split
  · rename_i h
    rw [min_eq_right (real_lt_real.mp h).le]
  · rename_i h
    rw [min_eq_left (not_lt.mp h)]

@[simp] theorem larger_real : larger (real x) (real y) = real (max x y) := by
  rw [larger, isNaN_real, isNaN_real, if_neg (by decide), if_neg (by decide)]
  split
  · rename_i h
    rw [max_eq_right (real_lt_real.mp h).le]
  · rename_i h
    rw [max_eq_left (not_lt.mp h)]

@[simp] theorem larger_negInfinity : larger (-Number.infinity) (real x) = real x := by
  have hlt : (-Number.infinity : Unrounded) < real x := trivial
  rw [larger, if_neg (by decide), isNaN_real, if_neg (by decide), if_pos hlt]

@[simp] theorem abs_real : Number.abs (real x) = real |x| := rfl

theorem clamp_real {lo hi : ℝ} (h : lo ≤ hi) :
    clamp (real lo) (real hi) (real x) = real (max lo (min hi x)) := by
  have hraised : (if real x < real lo then real lo else real x) = real (max lo x) := by
    split
    · rename_i hlo
      rw [max_eq_left (real_lt_real.mp hlo).le]
    · rename_i hlo
      rw [max_eq_right (not_lt.mp hlo)]
  rw [clamp, hraised, max_min_distrib_left, max_eq_right h]
  split
  · rename_i hhi
    rw [min_eq_left (real_lt_real.mp hhi).le]
  · rename_i hhi
    rw [min_eq_right (not_lt.mp hhi)]

theorem sum_real (xs : List ℝ) : sum (xs.map real) = real xs.sum := by
  have hfold : ∀ s : ℝ, (xs.map real).foldl (· + ·) (real s) = real (s + xs.sum) := by
    induction xs with
    | nil => intro s; simp
    | cons x xs ih =>
      intro s
      rw [List.map_cons, List.foldl_cons, real_add, ih, List.sum_cons, add_assoc]
  rw [sum, zero_eq, real_neg, neg_zero, hfold, zero_add]

theorem totalLe_real_iff {x y : ℝ} : Number.totalLe (real x) (real y) = true ↔ x ≤ y := by
  show decide (x ≤ y) = true ↔ x ≤ y
  exact decide_eq_true_iff

theorem totalLe_trans (a b c : Unrounded) (hab : Number.totalLe a b = true)
    (hbc : Number.totalLe b c = true) : Number.totalLe a c = true := by
  cases a <;> cases b <;> cases c <;> first
    | rfl
    | exact absurd hab Bool.false_ne_true
    | exact absurd hbc Bool.false_ne_true
    | exact totalLe_real_iff.mpr ((totalLe_real_iff.mp hab).trans (totalLe_real_iff.mp hbc))

theorem totalLe_total (a b : Unrounded) :
    (Number.totalLe a b || Number.totalLe b a) = true := by
  rw [Bool.or_eq_true]
  cases a <;> cases b <;> first
    | exact Or.inl rfl
    | exact Or.inr rfl
    | exact (le_total _ _).imp totalLe_real_iff.mpr totalLe_real_iff.mpr

theorem totalLe_antisymm (a b : Unrounded) (hab : Number.totalLe a b = true)
    (hba : Number.totalLe b a = true) : a = b := by
  cases a <;> cases b <;> first
    | rfl
    | exact absurd hab Bool.false_ne_true
    | exact absurd hba Bool.false_ne_true
    | exact congrArg real ((totalLe_real_iff.mp hab).antisymm (totalLe_real_iff.mp hba))

end Unrounded

end FactorStudy
