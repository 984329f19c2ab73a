import Mathlib

/-! `spin1_math.c` and the part of libm it calls. Floating arithmetic is that of
an ordered field, in which the operations are exact; `sqrt`, `sin` and `cos` are
parameters, instantiated at `ℝ` with the real functions. -/

namespace BallController

/-- The libm functions the program calls. -/
class Libm (α : Type) where
  sqrt : α → α
  sin : α → α
  cos : α → α

noncomputable instance instLibmReal : Libm ℝ := ⟨Real.sqrt, Real.sin, Real.cos⟩

@[simp] theorem libm_sqrt (x : ℝ) : Libm.sqrt x = Real.sqrt x := rfl

@[simp] theorem libm_sin (x : ℝ) : Libm.sin x = Real.sin x := rfl

@[simp] theorem libm_cos (x : ℝ) : Libm.cos x = Real.cos x := rfl

@[ext]
structure Vector2d (α : Type) where
  x : α
  y : α

namespace Spin1Math

section Functions

variable {α : Type} [LinearOrder α]

protected def min (v1 v2 : α) : α := if v1 > v2 then v2 else v1

protected def max (v1 v2 : α) : α := if v1 > v2 then v1 else v2

def range (value lower upper : α) : α :=
  if value > upper then upper else if value < lower then lower else value

variable [Field α]

/-- `PI_`, as the header has it. -/
def pi : α := 3.141527

def fAbs (value : α) : α := if value < 0.0 then -value else value

def norm [Libm α] (x y : Int) : α := Libm.sqrt ((x * x + y * y : Int) : α)

def vNorm [Libm α] (v : Vector2d α) : α := Libm.sqrt (v.x * v.x + v.y * v.y)

def vSub (v1 v2 : Vector2d α) : Vector2d α := ⟨v1.x - v2.x, v1.y - v2.y⟩

def vMul (coef : α) (v1 : Vector2d α) : Vector2d α := ⟨coef * v1.x, coef * v1.y⟩

end Functions

section Laws

variable {α : Type} [LinearOrder α]

theorem range_mem {a b : α} (h : a ≤ b) (v : α) : a ≤ range v a b ∧ range v a b ≤ b := by
  unfold range
  split
  · exact ⟨h, le_rfl⟩
  split
  · exact ⟨le_rfl, h⟩
  · next h1 h2 => exact ⟨not_lt.mp h2, not_lt.mp h1⟩

theorem range_of_mem {v a b : α} (ha : a ≤ v) (hb : v ≤ b) : range v a b = v := by
  rw [range, if_neg (not_lt.mpr hb), if_neg (not_lt.mpr ha)]

/-- The clamp lies below `c` exactly when the value does, for `c` between the bounds. -/
theorem range_lt_iff {v a b c : α} (hac : a < c) (hcb : c ≤ b) : range v a b < c ↔ v < c := by
  unfold range
  split
  · next h =>
    exact ⟨fun hb => absurd hb (not_lt.mpr hcb), fun hv => absurd (hv.trans_le hcb) h.asymm⟩
  split
  · next h => exact ⟨fun _ => h.trans hac, fun _ => hac⟩
  · exact Iff.rfl

theorem le_range_iff {v a b c : α} (hac : a < c) (hcb : c ≤ b) : c ≤ range v a b ↔ c ≤ v := by
  rw [← not_lt, ← not_lt, range_lt_iff hac hcb]

variable [Field α] [IsStrictOrderedRing α]

@[simp] theorem fAbs_eq_abs (v : α) : fAbs v = |v| := by
  have h0 : (0.0 : α) = 0 := by norm_num
  unfold fAbs
  rw [h0]
  split
  · next h => exact (abs_of_neg h).symm
  · next h => exact (abs_of_nonneg (not_lt.mp h)).symm

theorem abs_range_le (v : α) : |range v (-1.0) 1.0| ≤ 1 := by
  have h1 : (1.0 : α) = 1 := by norm_num
  rw [h1]
  exact abs_le.mpr (range_mem (by linarith) v)

theorem range_eq_zero {v : α} (h : range v (-1.0) 1.0 = 0) : v = 0 := by
  have h1 : (1.0 : α) = 1 := by norm_num
  unfold range at h
  rw [h1] at h
  split_ifs at h
  · exact absurd h one_ne_zero
  · exact absurd h (neg_ne_zero.mpr one_ne_zero)
  · exact h

theorem range_nonneg {v : α} (h : 0 ≤ v) : 0 ≤ range v (-1.0) 1.0 := by
  have h1 : (1.0 : α) = 1 := by norm_num
  unfold range
  rw [h1]
  split
  · exact zero_le_one
  split
  · next h2 => linarith
  · exact h

end Laws

end Spin1Math

end BallController
