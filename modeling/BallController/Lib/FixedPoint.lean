import Mathlib

/-! Fixed-point transmission of numbers: truncation toward zero (the C cast of
a floating value to `int`) and the quantisation it induces, where a value
travels as a sign and an integer magnitude. -/

namespace BallController.Lib

section FixedPoint

variable {α : Type} [Field α] [LinearOrder α] [FloorRing α]

/-- `(int)x`: truncation toward zero. -/
def trunc (x : α) : ℤ := if x < 0 then -⌊-x⌋ else ⌊x⌋

/-- `x` truncated toward zero to a multiple of `1 / k`. -/
def quantize (k x : α) : α := (trunc (x * k) : α) / k

/-- The integer that carries `x` without its sign, in units of `1 / k`. -/
def magnitude (k x : α) : ℕ := (trunc (|x| * k)).toNat

theorem trunc_of_nonneg {x : α} (h : 0 ≤ x) : trunc x = ⌊x⌋ := if_neg (not_lt.mpr h)

theorem trunc_nonneg {x : α} (h : 0 ≤ x) : 0 ≤ trunc x := by
  rw [trunc_of_nonneg h]
  exact Int.floor_nonneg.mpr h

variable [IsStrictOrderedRing α]

theorem trunc_neg (x : α) : trunc (-x) = -trunc x := by
  unfold trunc
  rcases lt_trichotomy x 0 with h | h | h
  · rw [if_neg (by linarith), if_pos h, neg_neg]
  · simp [h]
  · rw [if_pos (by linarith), if_neg (by linarith), neg_neg]

@[simp] theorem trunc_zero : trunc (0 : α) = 0 := by simp [trunc]

@[simp] theorem trunc_intCast (n : ℤ) : trunc (n : α) = n := by
  unfold trunc
  split
  · rw [← Int.cast_neg, Int.floor_intCast, neg_neg]
  · exact Int.floor_intCast n

theorem trunc_le {x : α} {n : ℤ} (hn : 0 ≤ n) (h : x ≤ n) : trunc x ≤ n := by
  unfold trunc
  split
  · have : 0 ≤ ⌊-x⌋ := Int.floor_nonneg.mpr (by linarith)
    omega
  · exact_mod_cast (Int.floor_le x).trans h

theorem le_trunc {x : α} {n : ℤ} (hn : 0 ≤ n) (h : -(n : α) ≤ x) : -n ≤ trunc x := by
  have hneg : trunc (-x) ≤ n := trunc_le hn (by linarith)
  rw [trunc_neg] at hneg
  omega

/-- Truncation of a number below a positive integer stays below it, and only then. -/
theorem trunc_lt_iff {x : α} {n : ℤ} (hn : 0 < n) : trunc x < n ↔ x < n := by
  unfold trunc
  split
  · have hf : 0 ≤ ⌊-x⌋ := Int.floor_nonneg.mpr (by linarith)
    have hx : x < n := by
      have : (0 : α) < n := by exact_mod_cast hn
      linarith
    exact ⟨fun _ => hx, fun _ => by omega⟩
  · exact Int.floor_lt

theorem abs_trunc_sub_lt (x : α) : |(trunc x : α) - x| < 1 := by
  unfold trunc
  have h1 := Int.floor_le x
  have h2 := Int.lt_floor_add_one x
  have h3 := Int.floor_le (-x)
  have h4 := Int.lt_floor_add_one (-x)
  split <;> rw [abs_lt] <;> push_cast <;> constructor <;> linarith

/-- Truncation moves a number toward zero, by less than 1. -/
theorem trunc_mem (x : α) : (0 ≤ x → x - 1 < trunc x ∧ (trunc x : α) ≤ x ∧ 0 ≤ (trunc x : α)) ∧
    (x ≤ 0 → x ≤ trunc x ∧ (trunc x : α) < x + 1 ∧ (trunc x : α) ≤ 0) := by
  have hpos : ∀ y : α, 0 ≤ y → y - 1 < trunc y ∧ (trunc y : α) ≤ y ∧ 0 ≤ (trunc y : α) := by
    intro y hy
    rw [trunc_of_nonneg hy]
    exact ⟨Int.sub_one_lt_floor y, Int.floor_le y, by exact_mod_cast Int.floor_nonneg.mpr hy⟩
  refine ⟨hpos x, fun hx => ?_⟩
  obtain ⟨h1, h2, h3⟩ := hpos (-x) (by linarith)
  rw [trunc_neg] at h1 h2 h3
  push_cast at h1 h2 h3
  exact ⟨by linarith, by linarith, by linarith⟩

/-- Close numbers have close truncations. -/
theorem abs_trunc_sub_trunc_lt (x y : α) : |(trunc x : α) - trunc y| < |x - y| + 1 := by
  obtain ⟨hx, hx'⟩ := trunc_mem x
  obtain ⟨hy, hy'⟩ := trunc_mem y
  have hd := le_abs_self (x - y)
  have hd' := neg_abs_le (x - y)
  rcases le_total 0 x with h | h <;> rcases le_total 0 y with k | k
  · obtain ⟨h1, h2, h3⟩ := hx h
    obtain ⟨k1, k2, k3⟩ := hy k
    exact abs_lt.mpr ⟨by linarith, by linarith⟩
  · obtain ⟨h1, h2, h3⟩ := hx h
    obtain ⟨k1, k2, k3⟩ := hy' k
    exact abs_lt.mpr ⟨by linarith, by linarith⟩
  · obtain ⟨h1, h2, h3⟩ := hx' h
    obtain ⟨k1, k2, k3⟩ := hy k
    exact abs_lt.mpr ⟨by linarith, by linarith⟩
  · obtain ⟨h1, h2, h3⟩ := hx' h
    obtain ⟨k1, k2, k3⟩ := hy' k
    exact abs_lt.mpr ⟨by linarith, by linarith⟩

theorem quantize_neg (k x : α) : quantize k (-x) = -quantize k x := by
  unfold quantize
  rw [neg_mul, trunc_neg]
  push_cast
  ring

@[simp] theorem quantize_zero (k : α) : quantize k 0 = 0 := by simp [quantize]

/-- A value of less than one unit is lost. -/
theorem quantize_eq_zero {k x : α} (hk : 0 < k) (h : |x| < 1 / k) : quantize k x = 0 := by
  obtain ⟨h1, h2⟩ := abs_lt.mp h
  rw [lt_div_iff₀ hk] at h2
  rw [← neg_div, div_lt_iff₀ hk] at h1
  have ht : trunc (x * k) = 0 := by
    rcases le_or_gt 0 (x * k) with hx | hx
    · rw [trunc_of_nonneg hx, Int.floor_eq_zero_iff]
      exact ⟨hx, h2⟩
    · have hneg := trunc_neg (x * k)
      rw [trunc_of_nonneg (by linarith), Int.floor_eq_zero_iff.mpr ⟨by linarith, by linarith⟩] at hneg
      omega
  simp [quantize, ht]

theorem quantize_nonneg {k x : α} (hk : 0 ≤ k) (h : 0 ≤ x) : 0 ≤ quantize k x :=
  div_nonneg (by exact_mod_cast trunc_nonneg (mul_nonneg h hk)) hk

theorem quantize_le {k x : α} (hk : 0 < k) (h : 0 ≤ x) : quantize k x ≤ x := by
  rw [quantize, trunc_of_nonneg (mul_nonneg h hk.le), div_le_iff₀ hk]
  exact Int.floor_le _

/-- Quantisation never enlarges a value. -/
theorem abs_quantize_le {k : α} (hk : 0 < k) (x : α) : |quantize k x| ≤ |x| := by
  rcases le_total 0 x with h | h
  · rw [abs_of_nonneg (quantize_nonneg hk.le h), abs_of_nonneg h]
    exact quantize_le hk h
  · have hn : 0 ≤ -x := by linarith
    rw [← abs_neg, ← quantize_neg, abs_of_nonneg (quantize_nonneg hk.le hn), abs_of_nonpos h]
    exact quantize_le hk hn

/-- Quantisation keeps the sign or gives zero. -/
theorem quantize_mul_self_nonneg {k : α} (hk : 0 ≤ k) (x : α) : 0 ≤ quantize k x * x := by
  rcases le_total 0 x with h | h
  · exact mul_nonneg (quantize_nonneg hk h) h
  · have hn := quantize_nonneg hk (x := -x) (by linarith)
    rw [quantize_neg] at hn
    exact mul_nonneg_of_nonpos_of_nonpos (by linarith) h

/-- Quantisation loses less than one unit of the last place. -/
theorem abs_quantize_sub_lt {k : α} (hk : 0 < k) (x : α) : |quantize k x - x| < 1 / k := by
  have h := abs_trunc_sub_lt (x * k)
  have he : quantize k x - x = ((trunc (x * k) : α) - x * k) / k := by
    unfold quantize
    field_simp
  rw [he, abs_div, abs_of_pos hk]
  exact div_lt_div_of_pos_right h hk

theorem cast_magnitude {k : α} (hk : 0 ≤ k) (x : α) : (magnitude k x : ℤ) = trunc (|x| * k) :=
  Int.toNat_of_nonneg (trunc_nonneg (mul_nonneg (abs_nonneg x) hk))

theorem trunc_of_neg_branch {k x : α} (hk : 0 ≤ k) (h : x < 0) :
    trunc (-x * k) = magnitude k x := by
  rw [cast_magnitude hk, abs_of_neg h]

theorem trunc_of_nonneg_branch {k x : α} (hk : 0 ≤ k) (h : ¬x < 0) :
    trunc (x * k) = magnitude k x := by
  rw [cast_magnitude hk, abs_of_nonneg (not_lt.mp h)]

/-- A value in the unit interval takes at most `k` units. -/
theorem magnitude_le {n : ℕ} {x : α} (h : |x| ≤ 1) : magnitude (n : α) x ≤ n := by
  have hn : (0 : α) ≤ n := Nat.cast_nonneg n
  have hle : trunc (|x| * n) ≤ (n : ℤ) := by
    apply trunc_le (Int.natCast_nonneg n)
    push_cast
    exact mul_le_of_le_one_left hn h
  rw [← cast_magnitude hn] at hle
  exact_mod_cast hle

/-- The sign and the magnitude carry exactly the quantised value. -/
theorem sign_magnitude {k : α} (hk : 0 ≤ k) (x : α) :
    (if x < 0 then -((magnitude k x : α) / k) else (magnitude k x : α) / k) = quantize k x := by
  have hm : ∀ {y : α}, trunc (y * k) = magnitude k x →
      (magnitude k x : α) / k = quantize k y := by
    intro y hy
    rw [quantize, hy, Int.cast_natCast]
  split
  · next h => rw [hm (trunc_of_neg_branch hk h), quantize_neg, neg_neg]
  · next h => rw [hm (trunc_of_nonneg_branch hk h)]

end FixedPoint

end BallController.Lib
