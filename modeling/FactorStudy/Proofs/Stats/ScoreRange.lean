import FactorStudy.Proofs.Double.Reach
import FactorStudy.Proofs.Series.Winsorize
import FactorStudy.Proofs.Stats.Score

/-!
# The range of a score

A score that is defined lies between 0 and 100, whatever the measures are, and it is undefined only
where the weights and what was earned have both overflowed (`ranged_of_validate`). No measures earn
more than those at which every contribution is saturated (`earned_le_saturated`), since rounded sums
and products grow with their operands, through an overflow as well. So whether a policy gives a
score to all measures shows at its saturation points.
-/

namespace FactorStudy

open Number Double

/-! ## Sums that may overflow -/

namespace Double

theorem mul_infinity {f : Float} (hf : isFinite f = true) (hpos : 0 < value f) :
    f * (infinity : Float) = infinity := by
  have hmul : f * infinity = Float.ofModel (.pack (Float.Model.UnpackedFloat.mul
      Float.Model.Format.binary64 f.toModel.unpack (infinity : Float).toModel.unpack)) := rfl
  rcases finite_cases hf with ⟨s, -, hvalue⟩ | ⟨s, d, hd, hu, hvalue⟩
  · linarith
  · have hdpos := hd.value_pos
    cases s
    · rw [hvalue, signed] at hpos
      linarith
    · rw [hmul, hu]
      rfl

/-- A difference of doubles is a whole number of the smallest units, so it is not rounded to 0. -/
theorem value_sub_pos {x y : Float} (hx : isFinite x = true) (hy : isFinite y = true)
    (h : value x < value y) : 0 < value (y - x) := by
  obtain ⟨i, hi⟩ := exists_units hx
  obtain ⟨j, hj⟩ := exists_units hy
  obtain ⟨c, hc, hvalue⟩ := exists_value (n := 1) (by decide) (e := -1074) le_rfl (by decide)
  have hpow : (0 : ℚ) < 2 ^ (-1074 : ℤ) := by positivity
  have hij : i + 1 ≤ j := by
    rw [hi, hj] at h
    exact_mod_cast lt_of_mul_lt_mul_right h hpow.le
  have hle : value c ≤ value y - value x := by
    have hij : (i : ℚ) + 1 ≤ j := by exact_mod_cast hij
    rw [hvalue, hi, hj, Nat.cast_one, ← sub_mul]
    exact mul_le_mul_of_nonneg_right (by linarith) hpow.le
  have hunit : 0 < value c := by
    rw [hvalue, Nat.cast_one, one_mul]
    exact hpow
  exact hunit.trans_le ((roundsTo_sub hy hx).le_value (isNaN_of_isFinite hc) hle)

end Double

namespace Double.Nonneg

variable {x x' y y' : Float}

theorem value_nonneg (hx : Nonneg x) : 0 ≤ value x := by
  have h := hx.2
  rwa [lt_iff_value hx.1 rfl, value_zero, not_lt] at h

theorem of_value (hx : isNaN x = false) (h : 0 ≤ value x) : Nonneg x := by
  refine ⟨hx, ?_⟩
  rw [lt_iff_value hx rfl, value_zero]
  exact not_lt.mpr h

/-- What is not above a finite value is finite. -/
theorem isFinite_of_le (hx : Nonneg x) (hy : isFinite y = true) (h : value x ≤ value y) :
    isFinite x = true :=
  isFinite_of_between rfl hy hx.1 (by rw [value_zero]; exact hx.value_nonneg) h

/-- A sum grows with its terms. -/
theorem add_mono (hx : Nonneg x) (hy : Nonneg y) (hx' : Nonneg x') (hy' : Nonneg y')
    (hxx : value x ≤ value x') (hyy : value y ≤ value y') : value (x + y) ≤ value (x' + y') := by
  cases hfx : isFinite x' with
  | false =>
    rw [hx'.eq_infinity hfx, infinity_add hy']
    exact value_le_infinity (hx.add hy).1
  | true =>
    cases hfy : isFinite y' with
    | false =>
      rw [hy'.eq_infinity hfy, add_infinity hfx]
      exact value_le_infinity (hx.add hy).1
    | true =>
      exact (roundsTo_add (hx.isFinite_of_le hfx hxx) (hy.isFinite_of_le hfy hyy)).mono
        (roundsTo_add hfx hfy) (add_le_add hxx hyy)

/-- So does a product with a positive finite value. -/
theorem mul_mono {f : Float} (hf : isFinite f = true) (hpos : 0 < value f) (hx : Nonneg x)
    (hx' : Nonneg x') (h : value x ≤ value x') : value (f * x) ≤ value (f * x') := by
  have hfpos : 0 < f := by rwa [lt_iff_value rfl (isNaN_of_isFinite hf), value_zero]
  have hfnonneg : Nonneg f := of_value (isNaN_of_isFinite hf) hpos.le
  cases hfx : isFinite x' with
  | false =>
    have hmul : f * x' = infinity := by
      rw [hx'.eq_infinity hfx]
      exact mul_infinity hf hpos
    rw [hmul]
    exact value_le_infinity (hfnonneg.mul hx hf (Or.inl hfpos)).1
  | true =>
    exact (roundsTo_mul hf (hx.isFinite_of_le hfx h)).mono (roundsTo_mul hf hfx)
      (mul_le_mul_of_nonneg_left h hpos.le)

/-- Sums grow with their terms. -/
theorem sum_mono {l l' : List Float}
    (h : List.Forall₂ (fun x x' => Nonneg x ∧ Nonneg x' ∧ value x ≤ value x') l l') :
    value (Number.sum l) ≤ value (Number.sum l') := by
  have hfold : ∀ {s s' : Float}, Nonneg s → Nonneg s' → value s ≤ value s' →
      value (l.foldl (· + ·) s) ≤ value (l'.foldl (· + ·) s') := by
    induction h with
    | nil => exact fun _ _ hle => hle
    | cons hxx _ ih =>
      obtain ⟨hx, hx', hle⟩ := hxx
      exact fun hs hs' hss => ih (hs.add hx) (hs'.add hx') (hs.add_mono hx hs' hx' hss hle)
  exact hfold (nonneg_zero .negative) (nonneg_zero .negative) le_rfl

end Double.Nonneg

namespace Score

/-! ## Contributions -/

theorem value_unit_mem (v : Float) : 0 ≤ value (unit v) ∧ value (unit v) ≤ 1 := by
  refine ⟨(nonneg_unit v).value_nonneg, ?_⟩
  have hdef := isNaN_of_isFinite (isFinite_unit v)
  rw [← value_one, ← le_iff_value hdef rfl]
  unfold unit
  split
  · rename_i h
    exact (Series.clamp_mem rfl rfl (isNaN_of_isFinite h) (by decide +kernel)).2
  · decide +kernel

theorem value_unit_of_one {v : Float} (hv : isFinite v = true) (hone : value v = 1) :
    value (unit v) = 1 := by
  have hdef := isNaN_of_isFinite hv
  have hlow : ¬ v < 0 := by
    rw [lt_iff_value hdef rfl, value_zero, hone]
    norm_num
  have hhigh : ¬ 1 < v := by
    rw [lt_iff_value rfl hdef, value_one, hone]
    norm_num
  rw [unit, if_pos hv, clamp, if_neg hlow]
  exact (congrArg value (if_neg hhigh)).trans hone

/-- What is divided by itself is saturated. -/
theorem value_unit_self {v : Float} (hv : isFinite v = true) (hpos : 0 < value v) :
    value (unit (v / v)) = 1 := by
  have hone : RoundsTo (v / v) (value 1) := by
    rw [value_one, ← div_self hpos.ne']
    exact roundsTo_div hv hv hpos.ne'
  obtain ⟨hfinite, hvalue⟩ := hone.same rfl
  exact value_unit_of_one hfinite (hvalue.trans value_one)

/-- A drawdown of 0 is saturated. -/
theorem value_unit_noLoss {v : Float} (hv : isFinite v = true) (hpos : 0 < value v) :
    value (unit (1 - Number.abs 0 / v)) = 1 := by
  have hzero : RoundsTo (Number.abs 0 / v) (value 0) := by
    have hdiv := roundsTo_div (x := Number.abs 0) rfl hv hpos.ne'
    have habs : value (Number.abs 0) = 0 := value_zero
    rwa [habs, zero_div, ← value_zero] at hdiv
  obtain ⟨hfinite, hvalue⟩ := hzero.same rfl
  have hone : RoundsTo (1 - Number.abs 0 / v) (value 1) := by
    have hsub := roundsTo_sub (x := 1) rfl hfinite
    rwa [hvalue, value_zero, sub_zero] at hsub
  obtain ⟨hfinite, hvalue⟩ := hone.same rfl
  exact value_unit_of_one hfinite (hvalue.trans value_one)

/-- What is divided by an infinity contributes nothing. -/
theorem value_unit_div {y : Float} (hy : isFinite y = false) (x : Float) :
    value (unit (x / y)) = 0 := by
  have hundefined : ∀ {v : Float}, isFinite v = false → value (unit v) = 0 := by
    intro v hv
    rw [unit, hv]
    exact value_zero
  cases hdef : isNaN y with
  | true =>
    rw [eq_nan_of_isNaN hdef, div_nan]
    exact hundefined rfl
  | false =>
    cases hquotient : isFinite (x / y) with
    | false => exact hundefined hquotient
    | true =>
      rcases div_infinite (isFinite_of_div hquotient) hy hdef with h | h
      · rw [h]
        decide +kernel
      · rw [h]
        decide +kernel

end Score

namespace ScorePolicy

open Score

/-- Measures at which no contribution can grow any more. -/
def saturated (p : ScorePolicy Float) : Measures Float where
  icMean := p.icFull
  icRatio := p.icirFull
  sharpe := p.sharpeFull
  winRate := p.winRateFull
  maxDrawdown := 0

end ScorePolicy

namespace Score

variable {p : ScorePolicy Float}

theorem abs_of_pos {x : Float} (h : 0 < x) : Number.abs x = x := by
  have habs : Number.abs x = Float.ofModel (.pack x.toModel.unpack.abs) := rfl
  rw [lt_iff, unpack_zero] at h
  cases hu : x.toModel.unpack with
  | notANumber => rw [hu] at h; cases h
  | infinity s =>
    rw [hu] at h
    cases s
    · cases h
    · rw [habs, hu, ← pack_unpack x, hu]
      rfl
  | zero s => rw [hu] at h; cases h
  | finite s m e hm =>
    rw [hu] at h
    cases s
    · cases h
    · rw [habs, hu, ← pack_unpack x, hu]
      rfl

/-- No measure contributes more than at its saturation point. -/
theorem contributions_le_saturated (hp : p.Accepted) (m : Measures Float) :
    List.Forall₂ (fun c d => value c ≤ value d) (contributions m p)
      (contributions p.saturated p) := by
  have hpoint : ∀ v ∈ [p.icFull, p.icirFull, p.sharpeFull, p.drawdownZero],
      isFinite v = true ∧ 0 < value v := by
    intro v hv
    obtain ⟨hfinite, hpos⟩ := hp.points v hv
    rw [lt_iff_value rfl (isNaN_of_isFinite hfinite), value_zero] at hpos
    exact ⟨hfinite, hpos⟩
  simp only [List.forall_mem_cons] at hpoint
  obtain ⟨hic, hicir, hsharpe, hdrawdown, -⟩ := hpoint
  have habs : ∀ v ∈ [p.icFull, p.icirFull, p.sharpeFull, p.drawdownZero], Number.abs v = v :=
    fun v hv => abs_of_pos (hp.points v hv).2
  -- everything is at most 1, which all but the win rate reach
  have hone : ∀ {d : Float} (c : Float), value (unit d) = 1 → value (unit c) ≤ value (unit d) :=
    fun c hd => hd ▸ (value_unit_mem c).2
  refine .cons (hone _ ?_) (.cons (hone _ ?_) (.cons (hone _ ?_) (.cons ?_
    (.cons (hone _ ?_) .nil))))
  · show value (unit (Number.abs p.icFull / p.icFull)) = 1
    rw [habs _ (by simp)]
    exact value_unit_self hic.1 hic.2
  · show value (unit (Number.abs p.icirFull / p.icirFull)) = 1
    rw [habs _ (by simp)]
    exact value_unit_self hicir.1 hicir.2
  · exact value_unit_self hsharpe.1 hsharpe.2
  · cases hband : isFinite (p.winRateFull - p.winRateFloor) with
    | false => rw [value_unit_div hband, value_unit_div hband]
    | true =>
      obtain ⟨hfull, hfloor⟩ := isFinite_of_sub hband
      have hlt := (lt_iff_value (isNaN_of_isFinite hfloor) (isNaN_of_isFinite hfull)).mp hp.winRates
      exact hone _ (value_unit_self hband (value_sub_pos hfloor hfull hlt))
  · exact value_unit_noLoss hdrawdown.1 hdrawdown.2

/-- Weights that are not negative keep the order of contributions. -/
theorem products_mono {ws cs ds : List Float} (hws : ∀ w ∈ ws, isFinite w = true ∧ Nonneg w)
    (hcs : ∀ c ∈ cs, isFinite c = true ∧ Nonneg c) (hds : ∀ d ∈ ds, isFinite d = true ∧ Nonneg d)
    (hle : List.Forall₂ (fun c d => value c ≤ value d) cs ds) :
    List.Forall₂ (fun x y => Nonneg x ∧ Nonneg y ∧ value x ≤ value y) (ws.zipWith (· * ·) cs)
      (ws.zipWith (· * ·) ds) := by
  induction hle generalizing ws with
  | nil => simp
  | cons hcd hle ih =>
    cases ws with
    | nil => exact .nil
    | cons w ws =>
      rw [List.forall_mem_cons] at hws hcs hds
      obtain ⟨⟨hwfinite, hw⟩, hws⟩ := hws
      obtain ⟨⟨hcfinite, hc⟩, hcs⟩ := hcs
      obtain ⟨⟨hdfinite, hd⟩, hds⟩ := hds
      have hproduct := (roundsTo_mul hwfinite hcfinite).mono (roundsTo_mul hwfinite hdfinite)
        (mul_le_mul_of_nonneg_left hcd hw.value_nonneg)
      exact .cons ⟨hw.mul hc hwfinite (Or.inr hcfinite), hw.mul hd hwfinite (Or.inr hdfinite),
        hproduct⟩ (ih hws hcs hds)

/-- No measures earn more than the saturated ones. -/
theorem earned_le_saturated (hp : p.Accepted) (hw : p.Weighted) (m : Measures Float) :
    value (earned m p) ≤ value (earned p.saturated p) := by
  have hunits : ∀ m' : Measures Float, ∀ c ∈ contributions m' p, isFinite c = true ∧ Nonneg c := by
    intro m' c hc
    obtain ⟨v, rfl⟩ := exists_unit_of_mem hc
    exact ⟨isFinite_unit v, nonneg_unit v⟩
  have hsum := Nonneg.sum_mono (products_mono (fun w hmem => ⟨hw.finite w hmem, hw.nonneg w hmem⟩)
    (hunits m) (hunits p.saturated) (contributions_le_saturated hp m))
  have hhundred : 0 < value 100 := by
    have h : value 100 = (100 : ℕ) := value_ofNat (by decide)
    rw [h]
    norm_num
  exact Nonneg.mul_mono rfl hhundred (Nonneg.sum (nonneg_products m hw))
    (Nonneg.sum (nonneg_products p.saturated hw)) hsum

/-- The scores that a policy gives. -/
structure Ranged (p : ScorePolicy Float) : Prop where
  /-- A defined score is a number between 0 and 100. -/
  bounds : ∀ m, isNaN (composite m p) = false → 0 ≤ composite m p ∧ composite m p ≤ 100
  /-- A score is undefined where the weights and what was earned have both overflowed. -/
  undefined : ∀ m, isNaN (composite m p) = true ↔
    isFinite (earned m p) = false ∧ isFinite (sum p.weights) = false
  /-- All measures have a score if the weights or what saturated measures earn has not. -/
  always : (∀ m, isNaN (composite m p) = false) ↔
    isFinite (earned p.saturated p) = true ∨ isFinite (sum p.weights) = true

/-- **The range of a score.** Under every policy that is accepted, a score that is defined is
between 0 and 100. It is undefined for the measures with which both sums have overflowed, that of
the weights and that of what was earned; so every measure has a score exactly if one of the two sums
is finite, that of what was earned taken at its greatest.

Each part is a fraction between 0 and 1 of its weight. The weights are accepted one by one, and
nothing keeps their sum in range. Infinity over infinity is undefined, and a clamp lets that pass.
-/
theorem ranged_of_validate (h : p.validate = .ok ()) : Ranged p := by
  have hp := ScorePolicy.accepted_of_validate h
  have hw := ScorePolicy.weighted_of_validate h
  refine ⟨fun m hdef => ?_, fun m => isNaN_composite_iff m hw, ?_, fun hfinite m => ?_⟩
  · have hscore : composite m p = clamp 0 100 (earned m p / sum p.weights) := if_pos hw.pos
    rw [hscore] at hdef ⊢
    rw [isNaN_clamp rfl rfl] at hdef
    exact Series.clamp_mem rfl rfl hdef (by decide +kernel)
  · -- the figures that earn every point are the ones that overflow first
    intro hall
    have hdef := hall p.saturated
    rw [← Bool.not_eq_true, isNaN_composite_iff _ hw, not_and_or, Bool.not_eq_false,
      Bool.not_eq_false] at hdef
    exact hdef
  · rw [← Bool.not_eq_true, isNaN_composite_iff m hw]
    rintro ⟨hearned, hsum⟩
    rcases hfinite with hfinite | hfinite
    · rw [(nonneg_earned m hw).isFinite_of_le hfinite (earned_le_saturated hp hw m)] at hearned
      cases hearned
    · rw [hfinite] at hsum
      cases hsum

/-- Two weights whose sum is too large for a double. -/
def heavy : ScorePolicy Float :=
  { ScorePolicy.standard with wWinRate := 1e308, wDrawdown := 1e308 }

theorem ranged_heavy : heavy.validate = .ok () ∧ Ranged heavy ∧
    isNaN (composite heavy.saturated heavy) = true := by
  have haccepted : heavy.validate = .ok () := by decide +kernel
  have hranged := ranged_of_validate haccepted
  exact ⟨haccepted, hranged, (hranged.undefined heavy.saturated).mpr (by decide +kernel)⟩

end Score

end FactorStudy
