import BallController.Lib.Congruential
import BallController.Population

/-! How the draws of musl's `rand` are distributed. The generator runs through
all states of its 64 bits before it returns to one, and `rand` shows the upper
bits, so that every value is equally frequent. The noise is computed from every
second draw, whose states are those of one parity; these draws still take every
value equally often. -/

namespace BallController
open Lib Spin1Math

/-! ## The generator -/

namespace MuslRand

/-- The states of the generator, as numbers. -/
def states (g : MuslRand) (n : ℕ) : ℕ := (next^[n] g).seed.toNat

theorem congruential (g : MuslRand) : Congruential 6364136223846793005 1 64 g.states where
  lt n := (next^[n] g).seed.isLt
  step n := by
    unfold states
    rw [Function.iterate_succ_apply']
    simp [next, BitVec.toNat_add, BitVec.toNat_mul, Nat.ModEq]

/-- The generator after some draws is at its first state after a whole number of
periods only. -/
theorem iterate_next_eq_iff (g : MuslRand) (n : ℕ) : next^[n] g = g ↔ 2 ^ 64 ∣ n := by
  have h := g.congruential.add_eq_iff (by norm_num) (by norm_num) 0 n
  rw [zero_add] at h
  rw [← h]
  constructor
  · intro he
    exact congrArg (fun r : MuslRand => r.seed.toNat) he
  · intro he
    cases g
    exact congrArg MuslRand.mk (BitVec.eq_of_toNat_eq he)

/-- The draw after `n` others. -/
def draw (g : MuslRand) (n : ℕ) : ℕ := (Prng.rand (next^[n] g)).1

theorem draw_eq (g : MuslRand) (n : ℕ) : g.draw n = g.states (n + 1) / 2 ^ 33 := by
  unfold states draw
  rw [Function.iterate_succ_apply']
  exact Nat.shiftRight_eq_div_pow _ _

/-- Whatever the seed, each of the `RAND_MAX + 1` values is drawn `2 ^ 33` times
in any `2 ^ 64` successive draws. -/
theorem draws_equidistributed (g : MuslRand) {v : ℕ} (hv : v ≤ randMax) :
    {n | n < 2 ^ 64 ∧ g.draw n = v}.ncard = 2 ^ 33 := by
  have hset : {n | n < 2 ^ 64 ∧ g.draw n = v} =
      (Finset.range (2 ^ 64)).filter fun n => g.states (n + 1) / 2 ^ 33 = v := by
    ext n
    rw [Finset.coe_filter, Set.mem_ofPred_eq, Set.mem_ofPred_eq, Finset.mem_range, draw_eq]
  have hcount := (g.congruential.shift 1).card_filter (by norm_num) (by norm_num)
    fun y => y / 2 ^ 33 = v
  have hblock := card_filter_div (m := 2 ^ 31) (k := 2 ^ 33) (Nat.lt_succ_of_le hv)
  rw [hset, Set.ncard_coe_finset]
  exact hcount.trans hblock

theorem draws_equidistributed_zero :
    {n | n < 2 ^ 64 ∧ (⟨0⟩ : MuslRand).draw n = 0}.ncard = 2 ^ 33 :=
  draws_equidistributed ⟨0⟩ (Nat.zero_le _)

end MuslRand

/-! ## The noise -/

/-- The noise of a second draw `u`: a point of a circle. -/
noncomputable def noiseAt (u : ℕ) : Vector2d ℝ :=
  let r : ℝ := √(-2.0 * -0.693147)
  let theta : ℝ := 2.0 * pi * (u / randMax)
  ⟨0.5 * (r * Real.cos theta), 0.5 * (r * Real.sin theta)⟩

/-- The clamps of the noise never act. -/
theorem noise_eq {G : Type} [Prng G] (g : G) :
    (noise (α := ℝ) g).1 = noiseAt (Prng.rand (Prng.rand g).2).1 := by
  have hr : √(-2.0 * -0.693147 : ℝ) ≤ 1.2 := Real.sqrt_le_iff.mpr ⟨by norm_num, by norm_num⟩
  have hclamp : ∀ u : ℝ, |u| ≤ 1 → range (0.5 * (√(-2.0 * -0.693147) * u)) (-1.0) 1.0 =
      0.5 * (√(-2.0 * -0.693147) * u) := by
    intro u hu
    have hprod : |√(-2.0 * -0.693147 : ℝ) * u| ≤ 1.2 := by
      rw [abs_mul, abs_of_nonneg (Real.sqrt_nonneg _)]
      exact (mul_le_of_le_one_right (Real.sqrt_nonneg _) hu).trans hr
    obtain ⟨h1, h2⟩ := abs_le.mp hprod
    exact range_of_mem (by norm_num at h1 ⊢; linarith) (by norm_num at h2 ⊢; linarith)
  exact Vector2d.ext (hclamp _ (Real.abs_cos_le_one _)) (hclamp _ (Real.abs_sin_le_one _))

theorem noiseAt_norm_sq (u : ℕ) : (noiseAt u).x ^ 2 + (noiseAt u).y ^ 2 = 0.3465735 := by
  let r : ℝ := √(-2.0 * -0.693147)
  let θ : ℝ := 2.0 * pi * (u / randMax)
  have hr : r ^ 2 = 1.386294 := by
    rw [Real.sq_sqrt (by norm_num)]
    norm_num
  calc (0.5 * (r * Real.cos θ)) ^ 2 + (0.5 * (r * Real.sin θ)) ^ 2
      = 0.5 ^ 2 * r ^ 2 * (Real.sin θ ^ 2 + Real.cos θ ^ 2) := by ring
    _ = 0.3465735 := by
        rw [Real.sin_sq_add_cos_sq, hr]
        norm_num

theorem abs_noise_le_radius {G : Type} [Prng G] (g : G) :
    |(noise (α := ℝ) g).1.x| ≤ 0.5888 ∧ |(noise (α := ℝ) g).1.y| ≤ 0.5888 := by
  have h := noiseAt_norm_sq (Prng.rand (Prng.rand g).2).1
  rw [← noise_eq] at h
  have hx := sq_nonneg (noise (α := ℝ) g).1.x
  have hy := sq_nonneg (noise (α := ℝ) g).1.y
  constructor
  · exact abs_le_of_sq_le_sq (by norm_num at h ⊢; linarith) (by norm_num)
  · exact abs_le_of_sq_le_sq (by norm_num at h ⊢; linarith) (by norm_num)

/-- The draw that a call of `noise` computes its direction from, the second one. -/
def usedDraw (g : MuslRand) : ℕ := (Prng.rand (Prng.rand g).2).1

/-- The generator after some calls of `noise`. -/
noncomputable def MuslRand.afterNoise (g : MuslRand) (k : ℕ) : MuslRand :=
  (fun g => (noise (α := ℝ) g).2)^[k] g

theorem MuslRand.afterNoise_eq (g : MuslRand) (k : ℕ) : g.afterNoise k = next^[2 * k] g := by
  unfold afterNoise
  rw [Function.iterate_mul]
  rfl

theorem usedDraw_afterNoise (g : MuslRand) (k : ℕ) :
    usedDraw (g.afterNoise k) = g.states (2 * k + 2) / 2 ^ 33 := by
  rw [← g.draw_eq (2 * k + 1), g.afterNoise_eq, MuslRand.draw, Function.iterate_succ_apply']
  rfl

/-- A call of `noise` uses the second of its two draws alone. Whatever the seed,
each of the `RAND_MAX + 1` values is the one it uses in `2 ^ 32` of any `2 ^ 63`
successive calls. -/
theorem noise_equidistributed (g : MuslRand) {v : ℕ} (hv : v ≤ randMax) :
    (∀ k, (noise (α := ℝ) (g.afterNoise k)).1 = noiseAt (usedDraw (g.afterNoise k))) ∧
      {k | k < 2 ^ 63 ∧ usedDraw (g.afterNoise k) = v}.ncard = 2 ^ 32 := by
  refine ⟨fun k => noise_eq (g.afterNoise k), ?_⟩
  have hset : {k | k < 2 ^ 63 ∧ usedDraw (g.afterNoise k) = v} =
      (Finset.range (2 ^ 63)).filter fun k => g.states (2 * k + 2) / 2 ^ 33 = v := by
    ext k
    rw [Finset.coe_filter, Set.mem_ofPred_eq, Set.mem_ofPred_eq, Finset.mem_range,
      usedDraw_afterNoise]
  have hcount := (g.congruential.shift 2).card_filter_even (w := 63) (by norm_num) (by norm_num)
    fun y => y / 2 ^ 33 = v
  have hblock := card_filter_mod_two_div (m := 2 ^ 31) (k := 2 ^ 32) (Nat.lt_succ_of_le hv)
    (Nat.mod_lt (g.states (0 + 2)) two_pos)
  rw [hset, Set.ncard_coe_finset]
  exact hcount.trans hblock

theorem noise_equidistributed_zero :
    {k | k < 2 ^ 63 ∧ usedDraw ((⟨0⟩ : MuslRand).afterNoise k) = 0}.ncard = 2 ^ 32 :=
  (noise_equidistributed ⟨0⟩ (Nat.zero_le _)).2

end BallController
