import BallController.Lib.Enclosure
import BallController.Parallel.Controller
import BallController.Sequential.CenterLine

/-! Where the populations stand. Enclosures of their centres show that along
either axis they leave no gap: wherever the ball is, one of them is close. -/

namespace BallController
open Lib Spin1Math
open BallController.Sequential (direction centerOf_y)

/-! ## Enclosures -/

/-- The sine of `m` sixteenths of a turn in the first quadrant, in parts of 1/10000. -/
def quadrantSine : Nat → Interval
  | 0 => ⟨0, 0⟩
  | 1 => ⟨3826, 3827⟩
  | 2 => ⟨7071, 7072⟩
  | 3 => ⟨9238, 9239⟩
  | _ => ⟨10000, 10000⟩

def sineInterval (j : Nat) : Interval :=
  let I := quadrantSine (min (j % 8) (8 - j % 8))
  if Even (j / 8) then I else I.neg

/-- The four radii, in parts of 1/10000. -/
def radiusInterval : Nat → Interval
  | 0 => ⟨2300, 2300⟩
  | 1 => ⟨5142, 5143⟩
  | 2 => ⟨7714, 7715⟩
  | _ => ⟨9621, 9622⟩

/-- The coordinates of a centre, in parts of 1/100000000. -/
def centerIntervalX (p : Uint × Uint) : Interval :=
  (radiusInterval (p.2 &&& 3#32).toNat).mul ((sineInterval (direction p + 4)).widen 2)

def centerIntervalY (p : Uint × Uint) : Interval :=
  (radiusInterval (p.2 &&& 3#32).toNat).mul ((sineInterval (direction p)).widen 2)

theorem quadrantSine_encloses {m : Nat} (hm : m ≤ 4) :
    (quadrantSine m).Encloses 10000 (Real.sin (m * (Real.pi / 8))) := by
  have hs1 : (1.4142 : ℝ) < √2 := Real.lt_sqrt_of_sq_lt (by norm_num)
  have hs2 : √2 < 1.4143 := (Real.sqrt_lt' (by norm_num)).mpr (by norm_num)
  interval_cases m
  · simp [quadrantSine, Interval.Encloses]
  · have h1 : (0.7652 : ℝ) < √(2 - √2) := Real.lt_sqrt_of_sq_lt (by norm_num; linarith)
    have h2 : √(2 - √2) < 0.7654 := (Real.sqrt_lt' (by norm_num)).mpr (by norm_num; linarith)
    rw [Nat.cast_one, one_mul, Real.sin_pi_div_eight]
    norm_num [quadrantSine, Interval.Encloses]
    constructor <;> linarith
  · rw [show ((2 : Nat) : ℝ) * (Real.pi / 8) = Real.pi / 4 by push_cast; ring, Real.sin_pi_div_four]
    norm_num [quadrantSine, Interval.Encloses]
    constructor <;> linarith
  · have h1 : (1.8476 : ℝ) < √(2 + √2) := Real.lt_sqrt_of_sq_lt (by norm_num; linarith)
    have h2 : √(2 + √2) < 1.8478 := (Real.sqrt_lt' (by norm_num)).mpr (by norm_num; linarith)
    rw [show ((3 : Nat) : ℝ) * (Real.pi / 8) = Real.pi / 2 - Real.pi / 8 by push_cast; ring,
      Real.sin_pi_div_two_sub, Real.cos_pi_div_eight]
    norm_num [quadrantSine, Interval.Encloses]
    constructor <;> linarith
  · rw [show ((4 : Nat) : ℝ) * (Real.pi / 8) = Real.pi / 2 by push_cast; ring, Real.sin_pi_div_two]
    norm_num [quadrantSine, Interval.Encloses]

theorem sineInterval_encloses (j : Nat) :
    (sineInterval j).Encloses 10000 (Real.sin (j * (Real.pi / 8))) := by
  have hm : j % 8 < 8 := Nat.mod_lt j (by norm_num)
  have hj : (j : ℝ) = (j % 8 : ℕ) + 8 * (j / 8 : ℕ) := by exact_mod_cast (Nat.mod_add_div j 8).symm
  have hturn : Real.sin (j * (Real.pi / 8)) =
      (-1) ^ (j / 8) * Real.sin ((j % 8 : ℕ) * (Real.pi / 8)) := by
    rw [← Real.sin_add_nat_mul_pi]
    congr 1
    rw [hj]
    ring
  have hfold : Real.sin ((j % 8 : ℕ) * (Real.pi / 8)) =
      Real.sin ((min (j % 8) (8 - j % 8) : ℕ) * (Real.pi / 8)) := by
    rcases le_total (j % 8) (8 - j % 8) with h | h
    · rw [min_eq_left h]
    · rw [min_eq_right h, ← Real.sin_pi_sub, Nat.cast_sub hm.le]
      congr 1
      push_cast
      ring
  have hq := quadrantSine_encloses (m := min (j % 8) (8 - j % 8)) (by omega)
  rw [hturn, hfold, sineInterval]
  split
  · next h => rwa [h.neg_one_pow, one_mul]
  · next h =>
    rw [(Nat.not_even_iff_odd.mp h).neg_one_pow, neg_one_mul]
    exact hq.neg

/-- The error of the constant `3.141527` of the code, over up to 15 sixteenths. -/
theorem abs_angle_sub_le {j : Nat} (hj : j < 16) :
    |(j : ℝ) * (3.141527 / 8) - j * (Real.pi / 8)| ≤ 0.0002 := by
  have hp1 := Real.pi_gt_d6
  have hp2 := Real.pi_lt_d6
  have h15 : (j : ℝ) ≤ 15 := by exact_mod_cast Nat.le_of_lt_succ hj
  have hd : |(3.141527 / 8 - Real.pi / 8 : ℝ)| ≤ 0.00001 :=
    abs_le.mpr ⟨by norm_num at *; linarith, by norm_num at *; linarith⟩
  rw [← mul_sub, abs_mul, Nat.abs_cast]
  calc (j : ℝ) * |(3.141527 / 8 - Real.pi / 8 : ℝ)| ≤ 15 * 0.00001 :=
      mul_le_mul h15 hd (abs_nonneg _) (by norm_num)
    _ ≤ 0.0002 := by norm_num

theorem sin_angle_encloses {j : Nat} (hj : j < 16) :
    ((sineInterval j).widen 2).Encloses 10000 (Real.sin (j * (3.141527 / 8))) := by
  refine (sineInterval_encloses j).widen ?_
  have h := (Real.abs_sin_sub_sin_le _ _).trans (abs_angle_sub_le hj)
  norm_num at h ⊢
  linarith

theorem cos_angle_encloses {j : Nat} (hj : j < 16) :
    ((sineInterval (j + 4)).widen 2).Encloses 10000 (Real.cos (j * (3.141527 / 8))) := by
  refine (sineInterval_encloses (j + 4)).widen ?_
  have hquarter : Real.sin ((j + 4 : ℕ) * (Real.pi / 8)) = Real.sin (j * (Real.pi / 8) + Real.pi / 2) := by
    congr 1
    push_cast
    ring
  have h := Real.abs_sin_sub_sin_le (j * (3.141527 / 8) + Real.pi / 2)
    (j * (Real.pi / 8) + Real.pi / 2)
  rw [add_sub_add_right_eq_sub] at h
  rw [hquarter, ← Real.sin_add_pi_div_two]
  have h' := h.trans (abs_angle_sub_le hj)
  norm_num at h' ⊢
  linarith

/-- The radius `init_MFM` computes from `coreX`. -/
noncomputable def radiusOf (coreX : Nat) : ℝ :=
  1.15 * √((if (coreX : ℝ) / 4 = 0 then 0.09 else (coreX : ℝ) / 4) - 0.05)

theorem radiusOf_encloses {a : Nat} (ha : a < 4) : (radiusInterval a).Encloses 10000 (radiusOf a) := by
  have hbound : ∀ x lo hi : ℝ, 0 ≤ lo → 0 ≤ hi → lo ^ 2 ≤ x → x ≤ hi ^ 2 → lo ≤ √x ∧ √x ≤ hi :=
    fun _ _ _ h0 h1 hlo hhi => ⟨Real.le_sqrt_of_sq_le hlo, Real.sqrt_le_iff.mpr ⟨h1, hhi⟩⟩
  interval_cases a
  · obtain ⟨h1, h2⟩ := hbound 0.04 0.2 0.2 (by norm_num) (by norm_num)
      (by norm_num) (by norm_num)
    norm_num [radiusInterval, radiusOf, Interval.Encloses] at h1 h2 ⊢
  · obtain ⟨h1, h2⟩ := hbound 0.2 0.44719 0.447215 (by norm_num) (by norm_num)
      (by norm_num) (by norm_num)
    norm_num [radiusInterval, radiusOf, Interval.Encloses] at h1 h2 ⊢
    constructor <;> linarith
  · obtain ⟨h1, h2⟩ := hbound 0.45 0.6708 0.67083 (by norm_num) (by norm_num)
      (by norm_num) (by norm_num)
    norm_num [radiusInterval, radiusOf, Interval.Encloses] at h1 h2 ⊢
    constructor <;> linarith
  · obtain ⟨h1, h2⟩ := hbound 0.7 0.83665 0.83667 (by norm_num) (by norm_num)
      (by norm_num) (by norm_num)
    norm_num [radiusInterval, radiusOf, Interval.Encloses] at h1 h2 ⊢
    constructor <;> linarith

theorem centerOf_x (p : Uint × Uint) : (centerOf p.1 p.2 : Vector2d ℝ).x =
    radiusOf (p.2 &&& 3#32).toNat * Real.cos (direction p * (3.141527 / 8)) := by
  have h0 : (0.0 : ℝ) = 0 := by norm_num
  have h2 : (2.0 : ℝ) = 2 := by norm_num
  have h4 : (4.0 : ℝ) = 4 := by norm_num
  have hang : (pi : ℝ) / 2 * (((p.2 >>> 2).toNat : ℝ) / 4) + (pi : ℝ) / 2 *
      (((chipXOf p.1).toNat : ℝ) + 2 * ((chipYOf p.1).toNat : ℝ)) =
        direction p * (3.141527 / 8) := by
    simp only [pi, direction]
    push_cast
    ring
  rw [← hang]
  simp only [centerOf, radiusOf, libm_sqrt, libm_cos, h0, h2, h4]
  rfl

theorem and_three_lt (c : Uint) : (c &&& 3#32).toNat < 4 := by
  rw [BitVec.toNat_and]
  exact lt_of_le_of_lt Nat.and_le_right (by decide)

theorem centerOf_encloses {p : Uint × Uint} (hp : direction p < 16) :
    (centerIntervalX p).Encloses (10000 * 10000) (centerOf p.1 p.2 : Vector2d ℝ).x ∧
      (centerIntervalY p).Encloses (10000 * 10000) (centerOf p.1 p.2 : Vector2d ℝ).y := by
  have hr := radiusOf_encloses (and_three_lt p.2)
  have h0 : 0 ≤ radiusOf (p.2 &&& 3#32).toNat := by
    unfold radiusOf
    positivity
  constructor
  · rw [centerOf_x]
    exact hr.mul (cos_angle_encloses hp) h0
  · rw [centerOf_y]
    exact hr.mul (sin_angle_encloses hp) h0

/-! ## No gap -/

theorem slaves_direction_lt : ∀ p ∈ Parallel.slaves, direction p < 16 := forall_mem_of_all (by decide)

/-- Windows of 7/100 about the centres of the slaves reach across the plate. -/
theorem windows_reach :
    100000000 < Interval.reaches (Parallel.slaves.map fun p => (centerIntervalX p).window 7000000) 40
      (-100000000) ∧
    100000000 < Interval.reaches (Parallel.slaves.map fun p => (centerIntervalY p).window 7000000) 40
      (-100000000) := by
  decide +kernel

theorem exists_slave_near {f : Uint × Uint → ℝ} {I : Uint × Uint → Interval}
    (hI : ∀ p ∈ Parallel.slaves, (I p).Encloses (10000 * 10000) (f p)) {n : Nat}
    (hn : 100000000 < Interval.reaches (Parallel.slaves.map fun p => (I p).window 7000000) n
      (-100000000)) {q : ℝ} (hq : |q| ≤ 1) : ∃ p ∈ Parallel.slaves, |q - f p| ≤ 7 / 100 := by
  obtain ⟨h1, h2⟩ := abs_le.mp hq
  have hreach : (100000000 : ℝ) <
      (Interval.reaches (Parallel.slaves.map fun p => (I p).window 7000000) n (-100000000) : ℤ) := by
    exact_mod_cast hn
  obtain ⟨J, hJ, hJq⟩ := Interval.exists_encloses (u := 10000 * 10000) (x := q)
    (by push_cast; linarith) (lt_of_le_of_lt (by push_cast; linarith) hreach)
  obtain ⟨p, hp, rfl⟩ := List.mem_map.mp hJ
  have h := (hI p hp).abs_sub_le hJq
  refine ⟨p, hp, ?_⟩
  push_cast at h
  linarith

/-- Wherever the ball is, the centre of a slave is close to it along the x axis, ... -/
theorem exists_slave_near_x {q : ℝ} (hq : |q| ≤ 1) :
    ∃ p ∈ Parallel.slaves, |q - (centerOf p.1 p.2 : Vector2d ℝ).x| ≤ 7 / 100 :=
  exists_slave_near (fun p hp => (centerOf_encloses (slaves_direction_lt p hp)).1) windows_reach.1 hq

/-- ... and the centre of one along the y axis. -/
theorem exists_slave_near_y {q : ℝ} (hq : |q| ≤ 1) :
    ∃ p ∈ Parallel.slaves, |q - (centerOf p.1 p.2 : Vector2d ℝ).y| ≤ 7 / 100 :=
  exists_slave_near (fun p hp => (centerOf_encloses (slaves_direction_lt p hp)).2) windows_reach.2 hq

/-- A population that is close is activated strongly, ... -/
theorem le_activation_of_near {d : ℝ} (h : |d| ≤ 7 / 100) : 4 / 5 ≤ activation |d| := by
  have := le_activation (abs_nonneg d)
  linarith

/-- ... so that a rate rises to half of it in one step. -/
theorem le_rate_of_near {f d : ℝ} (hf : 0 ≤ f) (h : |d| ≤ 7 / 100) :
    2 / 5 ≤ f + (-f + activation |d|) * tauM := by
  have := le_activation_of_near h
  rw [tauM_eq]
  linarith

end BallController
