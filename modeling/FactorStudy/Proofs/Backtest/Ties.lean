import FactorStudy.Proofs.Backtest.Frequency

/-!
# Ties and the order of time

Values that are the same keep their order in time, so the earlier one is not in the higher layer.
Values can count as equal without being the same, though: `0` and `-0.0`, which the total order
separates. A negative zero comes before every zero, also before an earlier one, and if a cut falls
between the two the earlier one ends up in the higher layer. `assign_ties` says that this is the
only way in which a tie is not in the order of time, and exactly when it happens.

The places are counted (`place`), so the statement does not refer to how the values are sorted.
-/

namespace FactorStudy

open Number

/-- In a list that is ordered by `R` the position of an entry is the number of entries before it. -/
theorem countP_of_pairwise {R : ℕ → ℕ → Prop} [DecidableRel R] (hasymm : ∀ a b, R a b → ¬ R b a)
    {l : List ℕ} (h : l.Pairwise R) {k i : ℕ} (hk : l[k]? = some i) :
    l.countP (fun j => R j i) = k := by
  induction l generalizing k with
  | nil => cases hk
  | cons a l ih =>
    obtain ⟨hhead, htail⟩ := List.pairwise_cons.mp h
    rw [List.countP_cons]
    cases k with
    | zero =>
      -- nothing comes before the first entry
      rw [List.getElem?_cons_zero, Option.some.injEq] at hk
      subst hk
      have hnone : l.countP (fun j => R j a) = 0 := by
        refine List.countP_eq_zero.mpr ?_
        intro j hj hja
        exact hasymm _ _ (hhead j hj) (of_decide_eq_true hja)
      have hself : ¬ R a a := fun haa => hasymm a a haa haa
      rw [hnone, if_neg (mt of_decide_eq_true hself)]
    | succ k =>
      rw [List.getElem?_cons_succ] at hk
      rw [ih htail hk, if_pos (decide_eq_true (hhead i (List.mem_of_getElem? hk)))]

namespace Layers

variable {values : List Float} {i j : ℕ}

instance (values : List Float) : DecidableRel (Before values) := fun i j =>
  inferInstanceAs (Decidable (key values i < key values j ∨ key values i = key values j ∧ i < j))

theorem Before.asymm (hij : Before values i j) : ¬ Before values j i := by
  unfold Before at *
  omega

/-- The place of a position: how many others come before it. -/
def place (values : List Float) (i : ℕ) : ℕ :=
  (List.range values.length).countP fun j => Before values j i

theorem eq_place {k : ℕ} (h : (order values)[k]? = some i) : k = place values i := by
  rw [place, ← (order_perm values).countP_eq]
  exact (countP_of_pairwise (fun _ _ => Before.asymm) (pairwise_order values) h).symm

/-- **The layer of a value** is settled by how many come before it. -/
theorem getElem?_assign_place (hi : i < values.length) (quantiles : ℕ) :
    (assign values quantiles)[i]? = some (place values i * quantiles / values.length) := by
  obtain ⟨k, -, hk⟩ := exists_place hi
  rw [← eq_place hk]
  exact getElem?_assign hk

/-- The layers are in the order of time where values count as equal. -/
def TiesInTime (values : List Float) (layers : List ℕ) : Prop :=
  ∀ (i j : ℕ) (v w : Float) (l m : ℕ), i < j → values[i]? = some v → values[j]? = some w →
    (v == w) = true → layers[i]? = some l → layers[j]? = some m → l ≤ m

/-- A cut falls between a zero and a negative zero that comes later. -/
def SplitsZeros (values : List Float) (quantiles i j : ℕ) : Prop :=
  i < j ∧ values[i]? = some 0 ∧ values[j]? = some (-0) ∧
    place values i * quantiles / values.length ≠ place values j * quantiles / values.length

theorem key_of_getElem? {v : Float} (h : values[i]? = some v) : key values i = totalOrderKey v := by
  rw [key, List.getD_eq_getElem?_getD, h, Option.getD_some]

/-- Of two values that count as equal the earlier one comes before the later, but for a zero before
a negative one. -/
theorem before_of_tie {v w : Float} (hij : i < j) (hv : values[i]? = some v)
    (hw : values[j]? = some w) (h : (v == w) = true) :
    Before values i j ∨ (v = 0 ∧ w = -0 ∧ Before values j i) := by
  rw [Before, Before, key_of_getElem? hv, key_of_getElem? hw]
  rcases Double.eq_or_zeros_of_beq h with rfl | ⟨rfl, rfl⟩ | ⟨rfl, rfl⟩
  · exact Or.inl (Or.inr ⟨rfl, hij⟩)
  · exact Or.inr ⟨rfl, rfl, Or.inl (by decide)⟩
  · exact Or.inl (Or.inl (by decide))

/-- The later of two values that count as equal is in the lower layer exactly if a cut splits them as
zeros. -/
theorem lt_iff_splitsZeros {v w : Float} {quantiles l m : ℕ} (hij : i < j)
    (hv : values[i]? = some v) (hw : values[j]? = some w) (h : (v == w) = true)
    (hl : (assign values quantiles)[i]? = some l) (hm : (assign values quantiles)[j]? = some m) :
    m < l ↔ SplitsZeros values quantiles i j := by
  have hplace := getElem?_assign_place (List.getElem?_eq_some_iff.mp hv).1 quantiles
  have hplace' := getElem?_assign_place (List.getElem?_eq_some_iff.mp hw).1 quantiles
  rw [hl, Option.some.injEq] at hplace
  rw [hm, Option.some.injEq] at hplace'
  constructor
  · intro hlt
    -- equal values are in the order of time, unless they are zeros of both signs
    rcases before_of_tie hij hv hw h with hbefore | ⟨rfl, rfl, -⟩
    · have hle : l ≤ m := layer_le_of_before hl hm hbefore
      omega
    · exact ⟨hij, hv, hw, by omega⟩
  · rintro ⟨-, hzero, hnegative, hne⟩
    -- the negative zero comes first though it is later, so its layer is not the higher one
    have hafter : Before values j i := by
      rw [Before, key_of_getElem? hzero, key_of_getElem? hnegative]
      exact Or.inl (by decide)
    have hle : m ≤ l := layer_le_of_before hm hl hafter
    omega

/-- **Ties.** The layer of a value is settled by the number of values that come before it. Of two
values that count as equal the later is in the lower layer exactly if it is a negative zero, the
earlier a zero, and a cut falls between them. So ties are in the order of time if and only if no cut
splits the zeros.

The sort takes the total order of the doubles, in which only the two zeros are equal numbers in
different places. -/
theorem assign_ties (values : List Float) (quantiles : ℕ) :
    (∀ i < values.length,
      (assign values quantiles)[i]? = some (place values i * quantiles / values.length)) ∧
    (∀ (i j : ℕ) (v w : Float) (l m : ℕ), i < j → values[i]? = some v → values[j]? = some w →
      (v == w) = true → (assign values quantiles)[i]? = some l →
      (assign values quantiles)[j]? = some m → (m < l ↔ SplitsZeros values quantiles i j)) ∧
    (TiesInTime values (assign values quantiles) ↔ ∀ i j, ¬ SplitsZeros values quantiles i j) := by
  have hlayer : ∀ i < values.length,
      (assign values quantiles)[i]? = some (place values i * quantiles / values.length) :=
    fun i hi => getElem?_assign_place hi quantiles
  refine ⟨hlayer, fun i j v w l m => lt_iff_splitsZeros, ?_⟩
  constructor
  · -- a cut between zeros breaks the order of the two zeros it splits
    intro hties i j hsplit
    obtain ⟨hij, hv, hw, hne⟩ := hsplit
    have hl := hlayer i (List.getElem?_eq_some_iff.mp hv).1
    have hm := hlayer j (List.getElem?_eq_some_iff.mp hw).1
    have hlt := (lt_iff_splitsZeros hij hv hw rfl hl hm).mpr ⟨hij, hv, hw, hne⟩
    exact absurd (hties i j 0 (-0) _ _ hij hv hw rfl hl hm) (not_le.mpr hlt)
  · intro hwhole i j v w l m hij hv hw h hl hm
    exact not_lt.mp (mt (lt_iff_splitsZeros hij hv hw h hl hm).mp (hwhole i j))

theorem assign_ties_zeros : SplitsZeros [0, -0, 1] 3 0 1 ∧
    ¬ TiesInTime [0, -0, 1] (assign ([0, -0, 1] : List Float) 3) := by
  have hsplit : SplitsZeros [0, -0, 1] 3 0 1 := ⟨by decide, rfl, rfl, by decide +kernel⟩
  exact ⟨hsplit, fun hties => (assign_ties [0, -0, 1] 3).2.2.mp hties 0 1 hsplit⟩

end Layers

end FactorStudy
