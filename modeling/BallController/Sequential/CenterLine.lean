import BallController.Sequential.Stability

/-! A position at which the critic is not stable: the middle of the plate, where
all populations on the center line fire fully for the y axis. -/

namespace BallController.Sequential
open Lib Spin1Math

/-- The direction of a population, in sixteenths of a turn. -/
def direction (p : Uint × Uint) : Nat :=
  (p.2 >>> 2).toNat + 4 * ((chipXOf p.1).toNat + 2 * (chipYOf p.1).toNat)

/-- Upper bounds of the four radii and of the sines, in units of 1/10000. -/
def radiusBound : Nat → Nat
  | 0 => 2300
  | 1 => 5143
  | 2 => 7715
  | _ => 9622

def sinBound (j : Nat) : Nat :=
  match j % 8 with
  | 0 => 2
  | 1 | 7 => 3829
  | 2 | 6 => 7074
  | _ => 10000

/-- A lower bound of the activation of a population for a ball on the centre
line, in units of 1/200000000. -/
def activationBound (p : Uint × Uint) : Nat :=
  200000000 - 5 * (radiusBound (p.2 &&& 3#32).toNat * sinBound (direction p))

theorem abs_sin_eighths {j m n : Nat} (h : j = 8 * n + m ∨ j + m = 8 * n) :
    |Real.sin (j * (Real.pi / 8))| = |Real.sin (m * (Real.pi / 8))| := by
  rcases h with h | h
  · have hj : (j : ℝ) * (Real.pi / 8) = m * (Real.pi / 8) + n * Real.pi := by
      rw [h]
      push_cast
      ring
    rw [hj, Real.sin_add_nat_mul_pi, abs_mul, abs_pow, abs_neg, abs_one, one_pow, one_mul]
  · have hc : (j : ℝ) + m = 8 * n := by exact_mod_cast h
    have hj : (j : ℝ) * (Real.pi / 8) = n * Real.pi - m * (Real.pi / 8) := by
      linear_combination Real.pi / 8 * hc
    rw [hj, Real.sin_nat_mul_pi_sub, abs_neg, abs_mul, abs_pow, abs_neg, abs_one, one_pow, one_mul]

theorem abs_sin_one_eighth_le : |Real.sin ((1 : Nat) * (Real.pi / 8))| ≤ 0.3827 := by
  have hs2 : (1.4142 : ℝ) < √2 := Real.lt_sqrt_of_sq_lt (by norm_num)
  have hr : √(2 - √2) < 0.7654 := (Real.sqrt_lt' (by norm_num)).mpr (by norm_num; linarith)
  rw [Nat.cast_one, one_mul, Real.sin_pi_div_eight, abs_of_nonneg (by positivity)]
  linarith

theorem abs_sin_two_eighths_le : |Real.sin ((2 : Nat) * (Real.pi / 8))| ≤ 0.7072 := by
  have hs2 : √2 < 1.4143 := (Real.sqrt_lt' (by norm_num)).mpr (by norm_num)
  rw [show ((2 : Nat) : ℝ) * (Real.pi / 8) = Real.pi / 4 by push_cast; ring, Real.sin_pi_div_four,
    abs_of_nonneg (by positivity)]
  linarith

/-- The error of the constant `3.141527` of the code, over up to 15 eighths. -/
theorem abs_sin_eighths_le {j : Nat} (hj : j < 16) :
    |Real.sin (j * (3.141527 / 8))| ≤ |Real.sin (j * (Real.pi / 8))| + 0.0002 := by
  have hpi : |(j : ℝ) * (3.141527 / 8) - j * (Real.pi / 8)| ≤ 0.0002 := by
    have hp1 := Real.pi_gt_d6
    have hp2 := Real.pi_lt_d6
    have h15 : (j : ℝ) ≤ 15 := by exact_mod_cast Nat.le_of_lt_succ hj
    have h0 : (0 : ℝ) ≤ j := Nat.cast_nonneg j
    rw [← mul_sub, abs_mul, abs_of_nonneg h0]
    have hd : |(3.141527 / 8 - Real.pi / 8 : ℝ)| ≤ 0.00001 :=
      abs_le.mpr ⟨by norm_num at *; linarith, by norm_num at *; linarith⟩
    calc (j : ℝ) * |(3.141527 / 8 - Real.pi / 8 : ℝ)| ≤ 15 * 0.00001 :=
        mul_le_mul h15 hd (abs_nonneg _) (by norm_num)
      _ ≤ 0.0002 := by norm_num
  have h1 := Real.abs_sin_sub_sin_le (j * (3.141527 / 8)) (j * (Real.pi / 8))
  have h2 := abs_sub_abs_le_abs_sub (Real.sin (j * (3.141527 / 8))) (Real.sin (j * (Real.pi / 8)))
  linarith

theorem abs_sin_le_sinBound {j : Nat} (hj : j < 16) :
    |Real.sin (j * (3.141527 / 8))| ≤ sinBound j / 10000 := by
  have h1 := abs_sin_one_eighth_le
  have h2 := abs_sin_two_eighths_le
  have hone := Real.abs_sin_le_one (j * (3.141527 / 8))
  -- the sine has a zero at every eighth eighth and is symmetric about it
  have hcase : ∀ {m n : Nat}, (j = 8 * n + m ∨ j + m = 8 * n) →
      |Real.sin (j * (3.141527 / 8))| ≤ |Real.sin (m * (Real.pi / 8))| + 0.0002 :=
    fun h => abs_sin_eighths h ▸ abs_sin_eighths_le hj
  unfold sinBound
  split
  · next h =>
    have hzero := hcase (m := 0) (n := j / 8) (Or.inl (by omega))
    rw [Nat.cast_zero, zero_mul, Real.sin_zero, abs_zero] at hzero
    norm_num at hzero ⊢
    exact hzero
  · next h =>
    have hright := hcase (m := 1) (n := j / 8) (Or.inl (by omega))
    norm_num at hright h1 ⊢
    linarith
  · next h =>
    have hleft := hcase (m := 1) (n := j / 8 + 1) (Or.inr (by omega))
    norm_num at hleft h1 ⊢
    linarith
  · next h =>
    have hright := hcase (m := 2) (n := j / 8) (Or.inl (by omega))
    norm_num at hright h2 ⊢
    linarith
  · next h =>
    have hleft := hcase (m := 2) (n := j / 8 + 1) (Or.inr (by omega))
    norm_num at hleft h2 ⊢
    linarith
  · norm_num at hone ⊢
    exact hone

theorem centerOf_y (p : Uint × Uint) : (centerOf p.1 p.2 : Vector2d ℝ).y =
    1.15 * √((if ((p.2 &&& 3#32).toNat : ℝ) / 4 = 0 then 0.09 else ((p.2 &&& 3#32).toNat : ℝ) / 4) - 0.05) *
      Real.sin (direction p * (3.141527 / 8)) := by
  have h0 : (0.0 : ℝ) = 0 := by norm_num
  have h2 : (2.0 : ℝ) = 2 := by norm_num
  have h4 : (4.0 : ℝ) = 4 := by norm_num
  have hang : (pi : ℝ) / 2 * (((p.2 >>> 2).toNat : ℝ) / 4) + (pi : ℝ) / 2 *
      (((chipXOf p.1).toNat : ℝ) + 2 * ((chipYOf p.1).toNat : ℝ)) =
        direction p * (3.141527 / 8) := by
    simp only [pi, direction]
    push_cast
    ring
  rw [← hang]
  simp only [centerOf, libm_sqrt, libm_sin, h0, h2, h4]
  rfl

theorem radius_le {a : Nat} (ha : a < 4) :
    1.15 * √((if (a : ℝ) / 4 = 0 then 0.09 else (a : ℝ) / 4) - 0.05) ≤ radiusBound a / 10000 := by
  have hs : ∀ {x b : ℝ}, 0 ≤ b → x ≤ b ^ 2 → √x ≤ b := fun hb h => Real.sqrt_le_iff.mpr ⟨hb, h⟩
  have hbound : ∀ {p b r : ℝ}, 0 ≤ b → p - 0.05 ≤ b ^ 2 → 1.15 * b ≤ r → 1.15 * √(p - 0.05) ≤ r :=
    fun hb h hr => (mul_le_mul_of_nonneg_left (hs hb h) (by norm_num)).trans hr
  interval_cases a
  · exact hbound (b := 0.2) (by norm_num) (by norm_num) (by norm_num [radiusBound])
  · exact hbound (b := 0.447214) (by norm_num) (by norm_num) (by norm_num [radiusBound])
  · exact hbound (b := 0.67083) (by norm_num) (by norm_num) (by norm_num [radiusBound])
  · exact hbound (b := 0.83667) (by norm_num) (by norm_num) (by norm_num [radiusBound])

/-- The bounds are bounds. -/
theorem activationBound_le {p : Uint × Uint} (hp : direction p < 16) :
    (activationBound p : ℝ) / 200000000 ≤ activation |0 - (centerOf p.1 p.2 : Vector2d ℝ).y| := by
  have ha : (p.2 &&& 3#32).toNat < 4 := by
    rw [BitVec.toNat_and]
    exact lt_of_le_of_lt Nat.and_le_right (by decide)
  have hs := abs_sin_le_sinBound hp
  have hr := radius_le ha
  generalize hR : (1.15 * √((if ((p.2 &&& 3#32).toNat : ℝ) / 4 = 0 then 0.09
    else ((p.2 &&& 3#32).toNat : ℝ) / 4) - 0.05) : ℝ) = R at hr
  have hR0 : 0 ≤ R := hR ▸ by positivity
  have hy : |0 - (centerOf p.1 p.2 : Vector2d ℝ).y| ≤
      (radiusBound (p.2 &&& 3#32).toNat * sinBound (direction p) : ℕ) / 100000000 := by
    rw [zero_sub, abs_neg, centerOf_y, hR, abs_mul, abs_of_nonneg hR0]
    refine (mul_le_mul hr hs (abs_nonneg _) (by positivity)).trans_eq ?_
    push_cast
    ring
  rcases le_total (5 * (radiusBound (p.2 &&& 3#32).toNat * sinBound (direction p))) 200000000 with h | h
  · have hle := le_activation (abs_nonneg (0 - (centerOf p.1 p.2 : Vector2d ℝ).y))
    rw [activationBound, Nat.cast_sub h, Nat.cast_mul]
    refine le_trans ?_ hle
    push_cast at hy ⊢
    linarith
  · rw [activationBound, Nat.sub_eq_zero_of_le h, Nat.cast_zero, zero_div]
    exact activation_nonneg _

theorem direction_lt : ∀ i < 63, direction (populationId i) < 16 := by decide

theorem sum_activationBound : 46688 * 10 ^ 13 < ∑ i : Fin 63, activationBound (populationId i) ^ 2 := by
  decide +kernel

/-- The squared activations add up to more than the stable 12.672. -/
theorem sum_profile_lt (G : Type) [Prng G] (noiseSeed : Uint) : 12.672 <
    ∑ i, Axis.profile (State.cMain nMFM ℝ G noiseSeed).centerY 0 i *
      Axis.profile (State.cMain nMFM ℝ G noiseSeed).centerY 0 i := by
  have hcenter := State.cMain_center (G := G) noiseSeed
  generalize State.cMain nMFM ℝ G noiseSeed = s at hcenter
  have hlast : Axis.profile s.centerY 0 (Fin.last 63) = 1 := by
    have hc : s.center (Fin.last 63) = ⟨0, 0⟩ := (hcenter (Fin.last 63)).trans (if_neg (by decide))
    have hle := le_activation (le_refl (0 : ℝ))
    simp only [Axis.profile, State.centerY, hc, sub_self, abs_zero]
    exact le_antisymm (activation_le_one _) (by linarith)
  have hinit : ∀ i : Fin 63, ((activationBound (populationId i) : ℝ) / 200000000) ^ 2 ≤
      Axis.profile s.centerY 0 i.castSucc * Axis.profile s.centerY 0 i.castSucc := by
    intro i
    have hc : s.center i.castSucc = centerOf (populationId i).1 (populationId i).2 :=
      (hcenter i.castSucc).trans (if_pos i.isLt)
    have h := activationBound_le (direction_lt i i.isLt)
    simp only [Axis.profile, State.centerY, hc]
    rw [sq]
    exact mul_self_le_mul_self (by positivity) h
  have hsum : (46688 * 10 ^ 13 : ℝ) < ∑ i : Fin 63, (activationBound (populationId i) : ℝ) ^ 2 := by
    exact_mod_cast sum_activationBound
  have hge := Finset.sum_le_sum fun i (_ : i ∈ Finset.univ) => hinit i
  simp only [div_pow, ← Finset.sum_div] at hge
  show _ < ∑ i : Fin (63 + 1), _
  rw [Fin.sum_univ_castSucc, hlast]
  have hlt : (11.672 : ℝ) < (∑ i : Fin 63, (activationBound (populationId i) : ℝ) ^ 2) / 200000000 ^ 2 := by
    rw [lt_div_iff₀ (by norm_num)]
    norm_num at hsum ⊢
    linarith
  linarith

/-- In the middle of the plate the errors grow beyond every bound from some
initial weights. -/
theorem errors_unbounded_in_the_middle :
    ¬∀ wVX wVY : CArray nMFM ℝ, (∀ i, |wVX i| ≤ 0.1 ∧ |wVY i| ≤ 0.1) →
      ErrorsBounded MuslRand 0 72 60 wVX wVY := by
  intro h
  have hgain : loopGainY MuslRand 0 72 60 ≤ 1 :=
    gainY_le_of_errorsBounded fun w hw => h 0 w fun i => ⟨abs_zero_le i, hw i⟩
  have hsum := sum_profile_lt MuslRand 0
  rw [loopGainY, BallParams.normalizedPos_middle, Axis.loopGain, Axis.corr, Axis.mean, Fintype.card_fin] at hgain
  norm_num [learningRateV, invDeltaTime, deltaTime, lambda, gamma, nMFM] at hgain hsum
  linarith

end BallController.Sequential
