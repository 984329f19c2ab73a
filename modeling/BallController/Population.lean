import BallController.Lib.Filter
import BallController.Prng
import BallController.Spin1Math

/-! The functions of `network.c` that concern one mean-field population or the
exploration noise, the same in both versions up to the arrays they work on. -/

namespace BallController
open Lib Spin1Math

section Constants

variable {α : Type} [Field α]

def gamma : α := 0.01
def lambda : α := 1.0
def learningRateV : α := 0.5
def tauM : α := 0.5
def beta : α := 5.0
def alpha : α := 0.8
def learningRateA : α := 0.5
/-- The bound `K` of the noise factor. -/
def kNoise : α := 0.5
def sigma0 : α := 0.1

end Constants

def resetStep : Nat := 200

/-! ## Numbering and placement of the populations -/

/-- `CORE_NB`, in the unsigned arithmetic of its `uint` core argument. -/
def coreNb (chipY chipX coreID : Uint) : Uint := 32 * chipY + 16 * chipX + (coreID - 1)

def chipXOf (chipID : Uint) : Uint := chipID &&& 0x000000FF#32
def chipYOf (chipID : Uint) : Uint := chipID >>> 8

section Functions

variable {α : Type} [Field α] [LinearOrder α]

/-- The centre `init_MFM` computes: four radii and sixteen directions. -/
def centerOf [Libm α] (chipID coreID : Uint) : Vector2d α :=
  let chipX : α := (chipXOf chipID).toNat
  let chipY : α := (chipYOf chipID).toNat
  let coreX : α := (coreID &&& 0x00000003#32).toNat
  let coreY : α := (coreID >>> 2).toNat
  let p1 := coreX / 4.0
  let p2 := coreY / 4.0
  let p1 := if p1 = 0.0 then 0.09 else p1
  let r := 1.15 * Libm.sqrt (p1 - 0.05)
  let theta := (pi / 2.0) * p2 + (pi / 2.0) * (chipX + 2.0 * chipY)
  ⟨r * Libm.cos theta, r * Libm.sin theta⟩

/-- An initial weight: uniform in `[-0.1, 0.1]`. -/
def initWeight {G : Type} [Prng G] (g : G) : α × G :=
  let u := uniform (α := α) g
  (u.1 / 5.0 - 0.1, u.2)

/-! ## Activation and noise -/

/-- The activation: dead zone, slope, saturation. -/
def IF (input : α) : α :=
  let output := if input < alpha then 0.0 else beta * (input - alpha)
  if output > 1.0 then 1.0 else output

/-- `sigma_x` and `sigma_y`, applied to the old value of their axis. -/
def sigmaOf (oldV : α) : α := sigma0 * Spin1Math.min kNoise (Spin1Math.max 0.0 (1.0 - oldV))

/-- `noise`: two `rand` calls. The first number is not used, the logarithm of
the Box-Muller transform being replaced by a constant. -/
def noise [Libm α] {G : Type} [Prng G] (g : G) : Vector2d α × G :=
  let u1 := uniform (α := α) g
  let u2 := uniform (α := α) u1.2
  let r : α := Libm.sqrt (-2.0 * -0.693147)
  let theta := 2.0 * pi * u2.1
  let v := vMul 0.5 ⟨r * Libm.cos theta, r * Libm.sin theta⟩
  (⟨range v.x (-1.0) 1.0, range v.y (-1.0) 1.0⟩, u2.2)

end Functions

section Laws

variable {α : Type} [Field α] [LinearOrder α] [IsStrictOrderedRing α]

/-! The constants as fractions. -/

theorem tauM_eq : (tauM : α) = 1 / 2 := by
  norm_num [tauM]

theorem gamma_eq : (gamma : α) = 1 / 100 := by
  norm_num [gamma]

theorem lambda_mul_gamma : (lambda * gamma : α) = 1 / 100 := by
  norm_num [lambda, gamma]

theorem learningRateV_eq : (learningRateV : α) = 1 / 2 := by
  norm_num [learningRateV]

theorem learningRateA_eq : (learningRateA : α) = 1 / 2 := by
  norm_num [learningRateA]

/-- The activation of a population at distance `d` from the ball along an axis. -/
def activation (d : α) : α := IF ((2.0 - d) / 2.0)

theorem activation_eq (d : α) : activation d = min 1 (max 0 (1 - 5 / 2 * d)) := by
  have h0 : (0.0 : α) = 0 := by norm_num
  have h1 : (1.0 : α) = 1 := by norm_num
  have h2 : (2.0 : α) = 2 := by norm_num
  have ha : (alpha : α) = 4 / 5 := by norm_num [alpha]
  have hb : (beta : α) = 5 := by norm_num [beta]
  simp only [activation, IF, h0, h1, h2, ha, hb]
  by_cases h : (2 - d) / 2 < 4 / 5
  · have hd : 1 - 5 / 2 * d ≤ 0 := by linarith
    rw [if_pos h, if_neg (by simp), max_eq_left hd, min_eq_right zero_le_one]
  · have hd : 0 ≤ 1 - 5 / 2 * d := by linarith
    rw [if_neg h, max_eq_right hd, show 5 * ((2 - d) / 2 - 4 / 5) = 1 - 5 / 2 * d by ring]
    split
    · next hgt => rw [min_eq_left hgt.le]
    · next hle => rw [min_eq_right (not_lt.mp hle)]

theorem activation_nonneg (d : α) : 0 ≤ activation d := by
  rw [activation_eq]
  exact le_min zero_le_one (le_max_left _ _)

theorem activation_le_one (d : α) : activation d ≤ 1 := by
  rw [activation_eq]
  exact min_le_left _ _

/-- A population fires only when the ball is closer than 2/5. -/
theorem activation_eq_zero {d : α} (h : 2 / 5 ≤ d) : activation d = 0 := by
  rw [activation_eq, max_eq_left (by linarith), min_eq_right zero_le_one]

/-- The nearer the ball, the stronger the activation. -/
theorem activation_antitone : Antitone (activation : α → α) := by
  intro d d' h
  rw [activation_eq, activation_eq]
  exact min_le_min_left _ (max_le_max_left _ (by linarith))

theorem le_activation {d : α} (h : 0 ≤ d) : 1 - 5 / 2 * d ≤ activation d := by
  rw [activation_eq]
  exact le_min (by linarith) (le_max_right _ _)

theorem abs_initWeight_le {G : Type} [Prng G] (g : G) : |(initWeight (α := α) g).1| ≤ 1 / 10 := by
  obtain ⟨h0, h1⟩ := uniform_mem (α := α) g
  have h5 : (5.0 : α) = 5 := by norm_num
  have h01 : (0.1 : α) = 1 / 10 := by norm_num
  have hw : (initWeight (α := α) g).1 = (uniform (α := α) g).1 / 5 - 1 / 10 := by
    simp only [initWeight, h5, h01]
  rw [hw, abs_le]
  constructor <;> linarith

/-- The rates of a population are leaky filters of its activations. -/
theorem exec_leak_rate_mem {f : α} (hf : 0 ≤ f ∧ f ≤ 1) (ds : List α) :
    0 ≤ exec (leak tauM) f (ds.map activation) ∧ exec (leak tauM) f (ds.map activation) ≤ 1 := by
  refine exec_leak_mem (by norm_num [tauM_eq]) (by norm_num [tauM_eq]) hf ?_
  intro u hu
  obtain ⟨d, -, rfl⟩ := List.mem_map.mp hu
  exact ⟨activation_nonneg d, activation_le_one d⟩

/-- The step of `mfm_` moves a rate half way to the activation. -/
theorem rate_step_mem {f : α} (hf : 0 ≤ f ∧ f ≤ 1) (d : α) :
    0 ≤ f + (-f + activation d) * tauM ∧ f + (-f + activation d) * tauM ≤ 1 :=
  exec_leak_rate_mem hf [d]

/-- Distances that are smaller call by call keep the larger rate larger. -/
theorem exec_leak_rate_mono {f f' : α} (hf : f' ≤ f) {ds ds' : List α}
    (hds : List.Forall₂ (· ≤ ·) ds ds') : exec (leak tauM) f' (ds'.map activation) ≤
      exec (leak tauM) f (ds.map activation) := by
  refine exec_leak_mono (by norm_num [tauM_eq]) (by norm_num [tauM_eq]) hf ?_
  rw [List.forall₂_map_left_iff, List.forall₂_map_right_iff]
  exact hds.flip.imp fun _ _ h => activation_antitone h

theorem exec_leak_rate_sub (f f' : α) (us : List α) :
    exec (leak tauM) f us - exec (leak tauM) f' us = (f - f') / 2 ^ us.length := by
  rw [exec_leak_sub, tauM_eq, show (1 : α) - 1 / 2 = 1 / 2 by norm_num, one_div, inv_pow]
  exact inv_mul_eq_div _ _

end Laws

/-! ## Noise and placement, in the real numbers -/

/-- The cosine of a rational number is not zero. -/
theorem cos_ratCast_ne_zero (q : ℚ) : Real.cos q ≠ 0 := by
  intro h
  obtain ⟨k, hk⟩ := Real.cos_eq_zero_iff.mp h
  have hne : (2 * k + 1 : ℤ) ≠ 0 := by omega
  refine irrational_pi ⟨2 * q / (2 * k + 1 : ℤ), ?_⟩
  have hne' : ((2 * k + 1 : ℤ) : ℝ) ≠ 0 := by exact_mod_cast hne
  push_cast at hne' ⊢
  rw [hk]
  field_simp

/-- The x component of the noise is never zero: its angle is a rational number. -/
theorem noise_x_ne_zero {G : Type} [Prng G] (g : G) : (noise (α := ℝ) g).1.x ≠ 0 := by
  intro h
  have hv := range_eq_zero h
  have hang : (2.0 * pi * (uniform (α := ℝ) (uniform (α := ℝ) g).2).1 : ℝ) =
      ((2 * 3.141527 * ((Prng.rand (Prng.rand g).2).1 / randMax) : ℚ) : ℝ) := by
    simp only [pi, uniform]
    push_cast
    norm_num
  have hr : (0 : ℝ) < √(-2.0 * -0.693147) := Real.sqrt_pos.mpr (by norm_num)
  have hc := cos_ratCast_ne_zero (2 * 3.141527 * ((Prng.rand (Prng.rand g).2).1 / randMax))
  rw [← hang] at hc
  simp only [vMul, libm_sqrt, libm_cos] at hv
  rcases mul_eq_zero.mp hv with h5 | h5
  · norm_num at h5
  · exact (mul_ne_zero hr.ne' hc) h5

/-- The centre of core 3 of chip 256 is close to the left edge of the plate, ... -/
theorem centerOf_256_3_mem :
    -0.97 < (centerOf 256 3 : Vector2d ℝ).x ∧ (centerOf 256 3 : Vector2d ℝ).x < -0.95 := by
  have hc : (centerOf 256 3 : Vector2d ℝ).x = 1.15 * √(7 / 10) * Real.cos 3.141527 := by
    simp [centerOf, chipXOf, chipYOf, pi]
    norm_num
  have h1 : (0.836 : ℝ) < √(7 / 10) := Real.lt_sqrt_of_sq_lt (by norm_num)
  have h2 : √(7 / 10) < (0.837 : ℝ) := (Real.sqrt_lt' (by norm_num)).mpr (by norm_num)
  have hs : Real.cos 3.141527 = -Real.cos (Real.pi - 3.141527) := by
    rw [Real.cos_pi_sub, neg_neg]
  have hcos := Real.one_sub_sq_div_two_le_cos (x := Real.pi - 3.141527)
  have hcos1 := Real.cos_le_one (Real.pi - 3.141527)
  have hp1 := Real.pi_gt_d6
  have hp2 := Real.pi_lt_d6
  have hsq : (Real.pi - 3.141527) ^ 2 ≤ 0.01 ^ 2 :=
    pow_le_pow_left₀ (by linarith) (by linarith) 2
  rw [hc, hs]
  generalize Real.cos (Real.pi - 3.141527) = c at *
  generalize √(7 / 10 : ℝ) = r at *
  constructor <;> nlinarith

/-- ... so a ball there fires its population, ... -/
theorem activation_256_3_pos : 0 < activation |-1 - (centerOf 256 3 : Vector2d ℝ).x| := by
  obtain ⟨h1, h2⟩ := centerOf_256_3_mem
  have hd : |-1 - (centerOf 256 3 : Vector2d ℝ).x| ≤ 0.05 := abs_le.mpr ⟨by linarith, by linarith⟩
  have ha := le_activation (abs_nonneg (-1 - (centerOf 256 3 : Vector2d ℝ).x))
  linarith

/-- ... and that of core 1 of chip 257 lies below its middle. -/
theorem centerOf_257_1_mem :
    -0.52 < (centerOf 257 1 : Vector2d ℝ).y ∧ (centerOf 257 1 : Vector2d ℝ).y < -0.49 := by
  have hc : (centerOf 257 1 : Vector2d ℝ).y = 1.15 * √(1 / 5) * Real.sin (3 * 3.141527 / 2) := by
    simp [centerOf, chipXOf, chipYOf, pi]
    norm_num
  have h1 : (0.446 : ℝ) < √(1 / 5) := Real.lt_sqrt_of_sq_lt (by norm_num)
  have h2 : √(1 / 5) < (0.448 : ℝ) := (Real.sqrt_lt' (by norm_num)).mpr (by norm_num)
  have hs : Real.sin (3 * 3.141527 / 2) = -Real.cos (3 * Real.pi / 2 - 3 * 3.141527 / 2) := by
    rw [← neg_eq_iff_eq_neg, ← Real.sin_sub_pi, ← Real.cos_pi_div_two_sub]
    congr 1
    ring
  have hcos := Real.one_sub_sq_div_two_le_cos (x := 3 * Real.pi / 2 - 3 * 3.141527 / 2)
  have hcos1 := Real.cos_le_one (3 * Real.pi / 2 - 3 * 3.141527 / 2)
  have hp1 := Real.pi_gt_d6
  have hp2 := Real.pi_lt_d6
  have hsq : (3 * Real.pi / 2 - 3 * 3.141527 / 2) ^ 2 ≤ 0.01 ^ 2 :=
    pow_le_pow_left₀ (by norm_num at *; linarith) (by norm_num at *; linarith) 2
  rw [hc, hs]
  generalize Real.cos (3 * Real.pi / 2 - 3 * 3.141527 / 2) = c at *
  generalize √(1 / 5 : ℝ) = r at *
  constructor <;> nlinarith

end BallController
