import Mathlib

/-! Intervals with integer ends, in parts of a unit. They enclose real numbers,
and integer arithmetic on them settles by computation what holds of the numbers:
products, distances, and that windows around the numbers leave no gap. -/

namespace BallController.Lib

structure Interval where
  lo : ℤ
  hi : ℤ
deriving DecidableEq, Repr

namespace Interval

/-- The number lies in the interval, whose ends count parts `1 / u`. -/
def Encloses (u : ℕ) (I : Interval) (x : ℝ) : Prop := (I.lo : ℝ) ≤ x * u ∧ x * u ≤ I.hi

/-- The product with an interval of numbers that are not negative. -/
def mul (I J : Interval) : Interval :=
  ⟨min (I.lo * J.lo) (I.hi * J.lo), max (I.lo * J.hi) (I.hi * J.hi)⟩

def neg (I : Interval) : Interval := ⟨-I.hi, -I.lo⟩

def widen (d : ℤ) (I : Interval) : Interval := ⟨I.lo - d, I.hi + d⟩

/-- The points that are closer than `d` to all points of the interval. -/
def window (d : ℤ) (I : Interval) : Interval := ⟨I.hi - d, I.lo + d⟩

theorem Encloses.neg {u : ℕ} {I : Interval} {x : ℝ} (h : I.Encloses u x) :
    I.neg.Encloses u (-x) := by
  simp only [Encloses, Interval.neg, Int.cast_neg, neg_mul]
  exact ⟨neg_le_neg h.2, neg_le_neg h.1⟩

theorem Encloses.widen {u : ℕ} {I : Interval} {x y : ℝ} {d : ℤ} (h : I.Encloses u x)
    (hd : |y - x| * u ≤ d) : (I.widen d).Encloses u y := by
  obtain ⟨hlo, hhi⟩ := h
  have habs : |(y - x) * u| ≤ d := by rwa [abs_mul, Nat.abs_cast]
  obtain ⟨h1, h2⟩ := abs_le.mp habs
  simp only [Encloses, Interval.widen, Int.cast_sub, Int.cast_add]
  constructor <;> linarith

/-- A factor between two bounds gives a product between the two products. -/
theorem min_le_mul {a b r s : ℝ} (ha : a ≤ r) (hb : r ≤ b) : min (a * s) (b * s) ≤ r * s := by
  rcases le_total 0 s with hs | hs
  · exact (min_le_left _ _).trans (mul_le_mul_of_nonneg_right ha hs)
  · exact (min_le_right _ _).trans (mul_le_mul_of_nonpos_right hb hs)

theorem mul_le_max {a b r s : ℝ} (ha : a ≤ r) (hb : r ≤ b) : r * s ≤ max (a * s) (b * s) := by
  rcases le_total 0 s with hs | hs
  · exact (mul_le_mul_of_nonneg_right hb hs).trans (le_max_right _ _)
  · exact (mul_le_mul_of_nonpos_right ha hs).trans (le_max_left _ _)

theorem Encloses.mul {u v : ℕ} {I J : Interval} {x y : ℝ} (hx : I.Encloses u x)
    (hy : J.Encloses v y) (h0 : 0 ≤ x) : (I.mul J).Encloses (u * v) (x * y) := by
  have hxu : 0 ≤ x * u := mul_nonneg h0 (Nat.cast_nonneg u)
  simp only [Encloses, Interval.mul, Int.cast_min, Int.cast_max, Int.cast_mul, Nat.cast_mul]
  rw [mul_mul_mul_comm]
  constructor
  · calc min ((I.lo : ℝ) * J.lo) (I.hi * J.lo) ≤ x * u * J.lo := min_le_mul hx.1 hx.2
      _ ≤ x * u * (y * v) := mul_le_mul_of_nonneg_left hy.1 hxu
  · calc x * u * (y * v) ≤ x * u * J.hi := mul_le_mul_of_nonneg_left hy.2 hxu
      _ ≤ max ((I.lo : ℝ) * J.hi) (I.hi * J.hi) := mul_le_max hx.1 hx.2

/-- A point of the window is close to the number. -/
theorem Encloses.abs_sub_le {u : ℕ} {I : Interval} {x p : ℝ} {d : ℤ} (h : I.Encloses u x)
    (hp : (I.window d).Encloses u p) : |p - x| * u ≤ d := by
  obtain ⟨hlo, hhi⟩ := h
  obtain ⟨hplo, hphi⟩ := hp
  simp only [window, Int.cast_sub, Int.cast_add] at hplo hphi
  have habs : |(p - x) * u| ≤ d := abs_le.mpr ⟨by linarith, by linarith⟩
  rwa [abs_mul, Nat.abs_cast] at habs

/-! ## Coverings -/

/-- How far the intervals that begin before `a` reach. -/
def reach (Is : List Interval) (a : ℤ) : ℤ :=
  Is.foldl (fun b I => if I.lo ≤ a then max b I.hi else b) a

/-- How far chains of `n` intervals reach. -/
def reaches (Is : List Interval) : ℕ → ℤ → ℤ
  | 0, a => a
  | n + 1, a => reaches Is n (reach Is a)

theorem exists_of_lt_foldl {Is : List Interval} {a b : ℤ} {y : ℝ} (hb : (b : ℝ) ≤ y)
    (hy : y < (Is.foldl (fun b I => if I.lo ≤ a then max b I.hi else b) b : ℤ)) :
    ∃ I ∈ Is, I.lo ≤ a ∧ y < I.hi := by
  induction Is generalizing b with
  | nil => exact absurd hy (not_lt.mpr hb)
  | cons I Is ih =>
    rw [List.foldl_cons] at hy
    by_cases hI : I.lo ≤ a
    · rw [if_pos hI] at hy
      by_cases hlt : y < I.hi
      · exact ⟨I, List.mem_cons_self, hI, hlt⟩
      · have hmax : ((max b I.hi : ℤ) : ℝ) ≤ y := by
          rw [Int.cast_max]
          exact max_le hb (not_lt.mp hlt)
        obtain ⟨J, hJ, hJa⟩ := ih hmax hy
        exact ⟨J, List.mem_cons_of_mem _ hJ, hJa⟩
    · rw [if_neg hI] at hy
      obtain ⟨J, hJ, hJa⟩ := ih hb hy
      exact ⟨J, List.mem_cons_of_mem _ hJ, hJa⟩

/-- Every number up to where the chains reach lies in one of the intervals. -/
theorem exists_encloses {Is : List Interval} {u n : ℕ} {a : ℤ} {x : ℝ} (ha : (a : ℝ) ≤ x * u)
    (hx : x * u < (reaches Is n a : ℤ)) : ∃ I ∈ Is, I.Encloses u x := by
  induction n generalizing a with
  | zero => exact absurd hx (not_lt.mpr ha)
  | succ n ih =>
    rcases lt_or_ge (x * u) (reach Is a : ℤ) with hlt | hge
    · obtain ⟨I, hI, hlo, hhi⟩ := exists_of_lt_foldl ha hlt
      exact ⟨I, hI, (Int.cast_le.mpr hlo).trans ha, hhi.le⟩
    · exact ih hge hx

end Interval

end BallController.Lib
