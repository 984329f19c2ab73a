import BallController.Sequential.Coverage

/-! Where the critic converges. The loop gain of a resting position is positive
everywhere, since some population fires; beyond 3/5 of the radius it is below 1,
since few populations stand so far outside. There the errors die out from all
initial weights, and the value settles at the discounted sum of the rewards. -/

namespace BallController
open Lib Lib.Feedback

/-! ## Loop gains beyond 3/5 -/

namespace Axis

/-- An upper bound of the activation of a population whose centre lies below
`hi`, for a ball at 3/5 or beyond, in parts of 1/200000000. -/
def outerBound (hi : ℤ) : ℤ := max 0 (min 200000000 (200000000 - 5 * (60000000 - hi)))

theorem activation_le_outerBound {I : Interval} {x q : ℝ} (h : I.Encloses (10000 * 10000) x)
    (hq : 3 / 5 ≤ q) : activation |q - x| ≤ outerBound I.hi / 200000000 := by
  have hx : x ≤ I.hi / 100000000 := by
    have hhi := h.2
    push_cast at hhi
    linarith
  have hd : q - x ≤ |q - x| := le_abs_self _
  rw [activation_eq, outerBound, le_div_iff₀ (by norm_num)]
  push_cast
  rcases le_total (1 - 5 / 2 * |q - x|) 0 with h0 | h0
  · rw [max_eq_left h0, min_eq_right zero_le_one, zero_mul]
    exact le_max_left _ _
  · rw [max_eq_right h0]
    refine le_max_of_le_right (le_min ?_ ?_)
    · have := min_le_left (1 : ℝ) (1 - 5 / 2 * |q - x|)
      linarith
    · have := min_le_right (1 : ℝ) (1 - 5 / 2 * |q - x|)
      linarith

variable {n : Nat}

theorem loopGain_eq (φ : Fin (n + 1) → ℝ) :
    loopGain φ = 500 / 99 * (∑ i, φ i * φ i) / (n + 1 : ℕ) := by
  rw [loopGain, corr, mean, Fintype.card_fin,
    show (learningRateV * invDeltaTime / (1 - lambda * gamma) : ℝ) = 500 / 99 by
      norm_num [learningRateV, invDeltaTime, deltaTime, lambda, gamma]]
  ring

/-- A population that fires makes the gain positive. -/
theorem loopGain_pos {φ : Fin (n + 1) → ℝ} {i : Fin (n + 1)} (hi : 0 < φ i) : 0 < loopGain φ := by
  have hsum : φ i * φ i ≤ ∑ i, φ i * φ i :=
    Finset.single_le_sum (f := fun i => φ i * φ i) (fun i _ => mul_self_nonneg _) (Finset.mem_univ i)
  have hpos : 0 < ∑ i, φ i * φ i := lt_of_lt_of_le (mul_pos hi hi) hsum
  rw [loopGain_eq]
  positivity

/-- The populations are enclosed, but for the last one, which stands at 0. -/
structure Enclosed (center : Fin (n + 1) → ℝ) (I : Fin n → Interval) : Prop where
  encloses : ∀ i, (I i).Encloses (10000 * 10000) (center i.castSucc)
  last : center (Fin.last n) = 0

theorem Enclosed.neg {center : Fin (n + 1) → ℝ} {I : Fin n → Interval} (h : Enclosed center I) :
    Enclosed (-center) fun i => (I i).neg where
  encloses i := (h.encloses i).neg
  last := by rw [Pi.neg_apply, h.last, neg_zero]

theorem Enclosed.loopGain_le {center : Fin (n + 1) → ℝ} {I : Fin n → Interval}
    (h : Enclosed center I) {q : ℝ} (hq : 3 / 5 ≤ q) : loopGain (profile center q) ≤
      500 / 99 * ((∑ i, outerBound (I i).hi ^ 2 : ℤ) / 200000000 ^ 2) / (n + 1 : ℕ) := by
  have hlast : profile center q (Fin.last n) = 0 := by
    rw [profile, h.last, sub_zero]
    exact activation_eq_zero (by linarith [le_abs_self q])
  have hinit : ∀ i : Fin n, profile center q i.castSucc * profile center q i.castSucc ≤
      (outerBound (I i).hi : ℝ) ^ 2 / 200000000 ^ 2 := by
    intro i
    have hle : profile center q i.castSucc ≤ outerBound (I i).hi / 200000000 :=
      activation_le_outerBound (h.encloses i) hq
    rw [← div_pow, sq]
    exact mul_self_le_mul_self (activation_nonneg _) hle
  have hsum : ∑ i, profile center q i * profile center q i ≤
      ∑ i, (outerBound (I i).hi : ℝ) ^ 2 / 200000000 ^ 2 := by
    rw [Fin.sum_univ_castSucc, hlast, mul_zero, add_zero]
    exact Finset.sum_le_sum fun i _ => hinit i
  rw [← Finset.sum_div] at hsum
  rw [loopGain_eq]
  push_cast
  gcongr

/-- Reflecting the plate changes no distance. -/
theorem profile_neg {ι : Type} (center : ι → ℝ) (q : ℝ) :
    profile (-center) (-q) = profile center q := by
  funext i
  rw [profile, profile, Pi.neg_apply, neg_sub_neg, abs_sub_comm]

end Axis

namespace Sequential
open Axis

variable {G : Type} [Prng G]

/-- The squared activations of a ball at 3/5 or beyond add up to less than 12.67. -/
theorem sum_outerBound :
    (∑ i : Fin 63, outerBound (centerIntervalX (populationId i)).hi ^ 2 < 50680 * 10 ^ 13 ∧
      ∑ i : Fin 63, outerBound (centerIntervalX (populationId i)).neg.hi ^ 2 < 50680 * 10 ^ 13) ∧
    ∑ i : Fin 63, outerBound (centerIntervalY (populationId i)).hi ^ 2 < 50680 * 10 ^ 13 ∧
      ∑ i : Fin 63, outerBound (centerIntervalY (populationId i)).neg.hi ^ 2 < 50680 * 10 ^ 13 := by
  decide +kernel

theorem enclosed_center (noiseSeed : Uint) :
    Enclosed (State.cMain nMFM ℝ G noiseSeed).centerX
        (fun i : Fin 63 => centerIntervalX (populationId i)) ∧
      Enclosed (State.cMain nMFM ℝ G noiseSeed).centerY
        (fun i : Fin 63 => centerIntervalY (populationId i)) := by
  have hcenter := State.cMain_center (G := G) noiseSeed
  generalize State.cMain nMFM ℝ G noiseSeed = s at hcenter
  have hlast : s.center (Fin.last 63) = ⟨0, 0⟩ := (hcenter (Fin.last 63)).trans (if_neg (by decide))
  have hinit : ∀ i : Fin 63, s.center i.castSucc = centerOf (populationId i).1 (populationId i).2 :=
    fun i => (hcenter i.castSucc).trans (if_pos i.isLt)
  refine ⟨⟨fun i => ?_, congrArg Vector2d.x hlast⟩, fun i => ?_, congrArg Vector2d.y hlast⟩
  · have hx : s.centerX i.castSucc = _ := congrArg Vector2d.x (hinit i)
    rw [hx]
    exact (centerOf_encloses (direction_lt i i.isLt)).1
  · have hy : s.centerY i.castSucc = _ := congrArg Vector2d.y (hinit i)
    rw [hy]
    exact (centerOf_encloses (direction_lt i i.isLt)).2

/-- Enclosed centres whose bounds add up to less have a gain below 1 outside, on
either side. -/
theorem loopGain_lt_one {center : Fin nMFM → ℝ} {I : Fin 63 → Interval}
    (h : Enclosed (n := 63) center I) (hright : ∑ i, outerBound (I i).hi ^ 2 < 50680 * 10 ^ 13)
    (hleft : ∑ i, outerBound (I i).neg.hi ^ 2 < 50680 * 10 ^ 13) {q : ℝ} (hq : 3 / 5 ≤ |q|) :
    loopGain (profile center q) < 1 := by
  have hlt : ∀ S : ℤ, S < 50680 * 10 ^ 13 →
      500 / 99 * ((S : ℝ) / 200000000 ^ 2) / (63 + 1 : ℕ) < 1 := by
    intro S hS
    have hS' : (S : ℝ) < 50680 * 10 ^ 13 := by exact_mod_cast hS
    norm_num at hS' ⊢
    linarith
  rcases le_total 0 q with h0 | h0
  · rw [abs_of_nonneg h0] at hq
    exact (h.loopGain_le hq).trans_lt (hlt _ hright)
  · rw [abs_of_nonpos h0] at hq
    rw [← profile_neg center q]
    exact (h.neg.loopGain_le hq).trans_lt (hlt _ hleft)

theorem loopGainX_mem (noiseSeed : Uint) {xPos yPos : Int}
    (h : 3 / 5 ≤ |(BallParams.normalizedPos xPos yPos : Vector2d ℝ).x|) :
    0 < loopGainX G noiseSeed xPos yPos ∧ loopGainX G noiseSeed xPos yPos < 1 := by
  obtain ⟨i, hi⟩ := State.exists_near_x (G := G) noiseSeed (BallParams.abs_normalizedPos_le xPos yPos).1
  have hfire := le_activation_of_near hi
  obtain ⟨hright, hleft⟩ := sum_outerBound.1
  exact ⟨loopGain_pos (n := 63) (i := i) (lt_of_lt_of_le (by norm_num) hfire),
    loopGain_lt_one (enclosed_center noiseSeed).1 hright hleft h⟩

theorem loopGainY_mem (noiseSeed : Uint) {xPos yPos : Int}
    (h : 3 / 5 ≤ |(BallParams.normalizedPos xPos yPos : Vector2d ℝ).y|) :
    0 < loopGainY G noiseSeed xPos yPos ∧ loopGainY G noiseSeed xPos yPos < 1 := by
  obtain ⟨j, hj⟩ := State.exists_near_y (G := G) noiseSeed (BallParams.abs_normalizedPos_le xPos yPos).2
  have hfire := le_activation_of_near hj
  obtain ⟨hright, hleft⟩ := sum_outerBound.2
  exact ⟨loopGain_pos (n := 63) (i := j) (lt_of_lt_of_le (by norm_num) hfire),
    loopGain_lt_one (enclosed_center noiseSeed).2 hright hleft h⟩

/-! ## Convergence -/

/-- The rewards of a ball at rest. -/
theorem held_reward_eq (xPos yPos : Int) (b : BallParams ℝ) {n : Nat} (h : 10 ≤ n) :
    (b.held xPos yPos n).rX = 1 - |(BallParams.normalizedPos xPos yPos : Vector2d ℝ).x| ∧
      (b.held xPos yPos n).rY = 1 - |(BallParams.normalizedPos xPos yPos : Vector2d ℝ).y| := by
  obtain ⟨m, rfl⟩ := Nat.exists_eq_add_of_le' (le_trans (by omega : 1 ≤ 10) h)
  obtain ⟨hx, hy⟩ := BallParams.held_spTerm xPos yPos b h
  obtain ⟨hpx, hpy⟩ := BallParams.abs_normalizedPos_le xPos yPos
  have h1 : (1.0 : ℝ) = 1 := by norm_num
  have hrange : ∀ u : ℝ, |u| ≤ 1 → Spin1Math.range (1 - |u|) (-1.0) 1.0 = 1 - |u| := by
    intro u hu
    have h0 := abs_nonneg u
    exact Spin1Math.range_of_mem (by norm_num; linarith) (by norm_num)
  simp only [BallParams.rX, BallParams.rY, BallParams.rPosX, BallParams.rPosY, hx, hy,
    BallParams.held_pos, Spin1Math.fAbs_eq_abs, h1, sub_zero]
  exact ⟨by simpa [h1] using hrange _ hpx, by simpa [h1] using hrange _ hpy⟩

/-- The ball rests at a tracked position from the first tick on. Along each axis
where that lies beyond 3/5, from all initial weights of the critic, its errors
die out geometrically and its value converges to the discounted sum of the
rewards. -/
theorem critic_converges_outside (G : Type) [Prng G] (noiseSeed : Uint) (xPos yPos : Int)
    (wVX wVY : CArray nMFM ℝ) :
    let s := fun n => (State.criticStart nMFM ℝ G noiseSeed wVX wVY).criticRun xPos yPos n
    let p : Vector2d ℝ := BallParams.normalizedPos xPos yPos
    (3 / 5 ≤ |p.x| → (Decays fun n => (s n).errorX) ∧
      Decays fun n => (s n).oldVX - (1 - |p.x|) / (1 - gamma)) ∧
    (3 / 5 ≤ |p.y| → (Decays fun n => (s n).errorY) ∧
      Decays fun n => (s n).oldVY - (1 - |p.y|) / (1 - gamma)) := by
  intro s p
  have hdisc : ∀ R : ℝ, R / (1 - gamma) = 100 / 99 * R := by
    intro R
    rw [gamma_eq]
    ring
  refine ⟨fun h => ?_, fun h => ?_⟩
  · obtain ⟨h0, h1⟩ := loopGainX_mem (G := G) noiseSeed h
    rw [hdisc]
    exact (State.rest_axisX noiseSeed xPos yPos wVX wVY).decays (n := 9)
      (fun k hk => (held_reward_eq _ _ _ (by omega)).1) h0 h1
  · obtain ⟨h0, h1⟩ := loopGainY_mem (G := G) noiseSeed h
    rw [hdisc]
    exact (State.rest_axisY noiseSeed xPos yPos wVX wVY).decays (n := 9)
      (fun k hk => (held_reward_eq _ _ _ (by omega)).2) h0 h1

/-- Both axes of the corner (0, 0), which is tracked as long as the camera is dark. -/
theorem critic_converges_outside_corner :
    let s := fun n => (State.criticStart nMFM ℝ MuslRand 0 0 0).criticRun 0 0 n
    (Decays fun n => (s n).errorX) ∧ Decays fun n => (s n).errorY := by
  intro s
  obtain ⟨⟨hx, -⟩, -, hy⟩ := BallParams.normalizedPos_zero_mem
  obtain ⟨h1, h2⟩ := critic_converges_outside MuslRand 0 0 0 0 0
  refine ⟨(h1 (le_abs.mpr (Or.inl ?_))).1, (h2 (le_abs.mpr (Or.inr ?_))).1⟩
  · norm_num at hx ⊢
    linarith
  · norm_num at hy ⊢
    linarith

end Sequential

end BallController
