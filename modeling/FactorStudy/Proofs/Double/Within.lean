import FactorStudy.Proofs.Double.Reach

/-!
# Upper bounds

Whether a computation overflows is settled by the sizes of its operands. A bound that is itself a
double, a short multiple of a power of two, is not passed by rounding (`RoundsTo.within`), so bounds
are carried through sums, products and quotients as if these were exact, as long as they stay short.
-/

namespace FactorStudy

open Number

namespace Double

/-- `k` units of `2 ^ e` are a double. -/
def IsShort (k : ℕ) (e : ℤ) : Prop := k < 2 ^ 53 ∧ -1074 ≤ e ∧ e ≤ 971

instance (k : ℕ) (e : ℤ) : Decidable (IsShort k e) := inferInstanceAs (Decidable (_ ∧ _))

theorem IsShort.mono {j k : ℕ} {e : ℤ} (hk : IsShort k e) (h : j ≤ k) : IsShort j e :=
  ⟨h.trans_lt hk.1, hk.2⟩

/-- Finite, and no further from 0 than `q`. -/
structure Within (x : Float) (q : ℚ) : Prop where
  finite : isFinite x = true
  le : |value x| ≤ q

/-- What is rounded stays within a bound that is a double. -/
theorem RoundsTo.within {x : Float} {q : ℚ} {k : ℕ} {e : ℤ} (h : RoundsTo x q) (hk : IsShort k e)
    (hq : |q| ≤ k * 2 ^ e) : Within x (k * 2 ^ e) := by
  obtain ⟨c, hc, hvalue⟩ := exists_value hk.1 hk.2.1 hk.2.2
  rw [← hvalue] at hq ⊢
  obtain ⟨hlo, hhi⟩ := abs_le.mp hq
  refine ⟨h.finite hc hlo hhi, abs_le.mpr ⟨?_, h.value_le (isNaN_of_isFinite hc) hhi⟩⟩
  rw [← value_neg] at hlo ⊢
  exact h.le_value ((isNaN_neg c).trans (isNaN_of_isFinite hc)) hlo

namespace Within

variable {x y : Float} {p q : ℚ} {k : ℕ} {e : ℤ}

theorem add (hx : Within x p) (hy : Within y q) (hk : IsShort k e) (hle : p + q ≤ k * 2 ^ e) :
    Within (x + y) (k * 2 ^ e) := by
  refine (roundsTo_add hx.finite hy.finite).within hk ?_
  exact (abs_add_le _ _).trans ((add_le_add hx.le hy.le).trans hle)

theorem sub (hx : Within x p) (hy : Within y q) (hk : IsShort k e) (hle : p + q ≤ k * 2 ^ e) :
    Within (x - y) (k * 2 ^ e) := by
  refine (roundsTo_sub hx.finite hy.finite).within hk ?_
  exact (abs_sub _ _).trans ((add_le_add hx.le hy.le).trans hle)

theorem mul (hx : Within x p) (hy : Within y q) (hk : IsShort k e) (hle : p * q ≤ k * 2 ^ e) :
    Within (x * y) (k * 2 ^ e) := by
  refine (roundsTo_mul hx.finite hy.finite).within hk ?_
  rw [abs_mul]
  exact (mul_le_mul hx.le hy.le (abs_nonneg _) ((abs_nonneg _).trans hx.le)).trans hle

/-- A share of a value: the quotient by a count. -/
theorem div_ofNat (hx : Within x p) {n : ℕ} (hpos : 0 < n) (hn : n < 2 ^ 53) (hk : IsShort k e)
    (hle : p ≤ n * (k * 2 ^ e)) : Within (x / ofNat n) (k * 2 ^ e) := by
  have hvalue : value (ofNat n) = n := value_ofNat hn
  have hcount : (0 : ℚ) < n := by exact_mod_cast hpos
  have hround := roundsTo_div hx.finite (isFinite_ofNat (n := n) (by omega))
    (by rw [hvalue]; exact hcount.ne')
  refine hround.within hk ?_
  rw [hvalue, abs_div, abs_of_pos hcount, div_le_iff₀ hcount, mul_comm]
  exact hx.le.trans hle

/-- A sum stays within what its number of terms and the bound of each come to. -/
theorem foldl {a : ℕ} {l : List Float} (hl : ∀ v ∈ l, Within v (a * 2 ^ e))
    (hk : IsShort (k + l.length * a) e) {start : Float} (hstart : Within start (k * 2 ^ e)) :
    Within (l.foldl (· + ·) start) ((k + l.length * a : ℕ) * 2 ^ e) := by
  induction l generalizing k start with
  | nil => simpa using hstart
  | cons v l ih =>
    obtain ⟨hv, hl⟩ := List.forall_mem_cons.mp hl
    -- the new term moves from the list to what has been added up
    have hsplit : k + (v :: l).length * a = k + a + l.length * a := by
      rw [List.length_cons, Nat.succ_mul]
      omega
    rw [hsplit] at hk ⊢
    have hnext : Within (start + v) ((k + a : ℕ) * 2 ^ e) := by
      refine hstart.add hv (hk.mono (Nat.le_add_right _ _)) ?_
      push_cast
      linarith
    exact ih hl hk hnext

/-- The sum of values within a bound. -/
theorem sum {a : ℕ} {l : List Float} (hl : ∀ v ∈ l, Within v (a * 2 ^ e))
    (hk : IsShort (l.length * a) e) : Within (Number.sum l) ((l.length * a : ℕ) * 2 ^ e) := by
  have hstart : Within (-0) ((0 : ℕ) * 2 ^ e) := by
    refine ⟨rfl, ?_⟩
    rw [value_neg, value_zero, neg_zero, abs_zero, Nat.cast_zero, zero_mul]
  have hsum := Within.foldl hl (k := 0) (by rwa [Nat.zero_add]) hstart
  rwa [Nat.zero_add] at hsum

end Within

end Double

end FactorStudy
