import BallController.Lib.Machine

/-! A leaky filter: every input pulls the value the fraction `a` of the way
towards itself. For `a` in the unit interval it stays within the bounds of its
inputs and is monotone in them, and of two runs on the same inputs the
difference of the initial values dies out by the factor `1 - a` a step. -/

namespace BallController.Lib

variable {α : Type} [Field α]

def leak (a x u : α) : α := x + (-x + u) * a

/-- A value is a fixed point of its own input. -/
@[simp] theorem leak_self (a x : α) : leak a x x = x := by
  simp [leak]

/-! ## Forgetting -/

theorem leak_sub (a x y u : α) : leak a x u - leak a y u = (1 - a) * (x - y) := by
  simp only [leak]
  ring

theorem exec_leak_sub (a x y : α) (us : List α) :
    exec (leak a) x us - exec (leak a) y us = (1 - a) ^ us.length * (x - y) := by
  induction us generalizing x y with
  | nil => simp
  | cons u us ih => rw [exec_cons, exec_cons, ih, leak_sub, List.length_cons, pow_succ, mul_assoc]

/-! ## Order and range -/

variable [LinearOrder α] [IsStrictOrderedRing α] {a : α}

theorem leak_mono (h0 : 0 ≤ a) (h1 : a ≤ 1) {x y u v : α} (hx : x ≤ y) (hu : u ≤ v) :
    leak a x u ≤ leak a y v := by
  have hdiff : leak a y v - leak a x u = (1 - a) * (y - x) + a * (v - u) := by
    simp only [leak]
    ring
  have hstate := mul_nonneg (sub_nonneg.mpr h1) (sub_nonneg.mpr hx)
  have hinput := mul_nonneg h0 (sub_nonneg.mpr hu)
  linarith

theorem exec_leak_mono (h0 : 0 ≤ a) (h1 : a ≤ 1) {x y : α} {us vs : List α} (hx : x ≤ y)
    (hus : List.Forall₂ (· ≤ ·) us vs) : exec (leak a) x us ≤ exec (leak a) y vs := by
  induction hus generalizing x y with
  | nil => exact hx
  | cons hu _ ih => exact ih (leak_mono h0 h1 hx hu)

theorem leak_mem (h0 : 0 ≤ a) (h1 : a ≤ 1) {lo hi x u : α} (hx : lo ≤ x ∧ x ≤ hi)
    (hu : lo ≤ u ∧ u ≤ hi) : lo ≤ leak a x u ∧ leak a x u ≤ hi := by
  have hlo := leak_mono h0 h1 hx.1 hu.1
  have hhi := leak_mono h0 h1 hx.2 hu.2
  rw [leak_self] at hlo hhi
  exact ⟨hlo, hhi⟩

theorem exec_leak_mem (h0 : 0 ≤ a) (h1 : a ≤ 1) {lo hi x : α} (hx : lo ≤ x ∧ x ≤ hi) {us : List α}
    (hus : ∀ u ∈ us, lo ≤ u ∧ u ≤ hi) : lo ≤ exec (leak a) x us ∧ exec (leak a) x us ≤ hi :=
  exec_induction_along (P := fun x => lo ≤ x ∧ x ≤ hi) (Q := fun _ u => lo ≤ u ∧ u ≤ hi)
    (fun _ _ hx hu => leak_mem h0 h1 hx hu) hx (along_events.mpr hus)

end BallController.Lib
