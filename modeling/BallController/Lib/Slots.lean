import BallController.Lib.Loop

/-! An array shared by writers. Every writer `k` owns the cell `slot k` and
overwrites it, so that the array always holds the last value of each writer and
its sum is the sum of these values; the values of the writers whose slot is past
the end are lost. -/

namespace BallController.Lib

variable {n : Nat} {κ β : Type} {slot : κ → Nat}

/-- The array `a` holds the last value of every writer, and zero elsewhere. -/
structure Slotted [Zero β] (slot : κ → Nat) (a : CArray n β) (last : κ → β) : Prop where
  cell : ∀ k (h : slot k < n), a ⟨slot k, h⟩ = last k
  rest : ∀ j : Fin n, (∀ k, slot k ≠ j) → a j = 0

namespace Slotted

theorem init [Zero β] : Slotted slot (0 : CArray n β) (0 : κ → β) :=
  ⟨fun _ _ => rfl, fun _ _ => rfl⟩

theorem write [Zero β] [DecidableEq κ] (hs : Function.Injective slot) {a : CArray n β} {last : κ → β}
    (h : Slotted slot a last) (k : κ) (v : β) :
    Slotted slot (a.write (slot k) v) (Function.update last k v) where
  cell k' hk' := by
    by_cases he : k' = k
    · subst he
      simp
    · have hne : slot k' ≠ slot k := fun hk => he (hs hk)
      simpa [hne, he] using h.cell k' hk'
  rest j hj := by
    have hne : j.val ≠ slot k := fun hk => hj k hk.symm
    simpa [hne] using h.rest j hj

/-- What holds of zero and of all last values holds of every cell. -/
theorem forall_cell [Zero β] {a : CArray n β} {last : κ → β} (h : Slotted slot a last) {P : β → Prop}
    (h0 : P 0) (hl : ∀ k, P (last k)) (j : Fin n) : P (a j) := by
  by_cases hj : ∃ k, slot k = j.val
  · obtain ⟨k, hk⟩ := hj
    have hcell : a j = last k := (congrArg a (Fin.ext hk.symm)).trans (h.cell k (hk ▸ j.isLt))
    rw [hcell]
    exact hl k
  · rw [h.rest j fun k hk => hj ⟨k, hk⟩]
    exact h0

/-- The sum of the cells: the writers within the array count. -/
theorem sum [AddCommMonoid β] [Fintype κ] (hs : Function.Injective slot) {a : CArray n β}
    {last : κ → β} (h : Slotted slot a last) :
    ∑ j, a j = ∑ k, if slot k < n then last k else 0 := by
  have hcell : ∀ j, a j = ∑ k, if slot k = j.val then last k else 0 := by
    intro j
    by_cases hj : ∃ k, slot k = j.val
    · obtain ⟨k, hk⟩ := hj
      have hkj : slot k < n := hk ▸ j.isLt
      rw [Finset.sum_eq_single k (fun k' _ hk' => if_neg fun he => hk' (hs (he.trans hk.symm)))
        (fun hk' => absurd (Finset.mem_univ k) hk'), if_pos hk, ← h.cell k hkj]
      exact congrArg a (Fin.ext hk.symm)
    · rw [h.rest j fun k hk => hj ⟨k, hk⟩]
      exact (Finset.sum_eq_zero fun k _ => if_neg fun hk => hj ⟨k, hk⟩).symm
  rw [Finset.sum_congr rfl fun j _ => hcell j, Finset.sum_comm]
  refine Finset.sum_congr rfl fun k _ => ?_
  by_cases hk : slot k < n
  · rw [if_pos hk, Finset.sum_eq_single (⟨slot k, hk⟩ : Fin n)
      (fun j _ hj => if_neg fun he => hj (Fin.ext he.symm))
      (fun hj => absurd (Finset.mem_univ _) hj), if_pos rfl]
  · rw [if_neg hk]
    exact Finset.sum_eq_zero fun j _ => if_neg fun (he : slot k = j.val) => hk (he ▸ j.isLt)

/-- No value is lost when the writers past the end have nothing to say. -/
theorem sum_eq [AddCommMonoid β] [Fintype κ] (hs : Function.Injective slot) {a : CArray n β}
    {last : κ → β} (h : Slotted slot a last) (hz : ∀ k, n ≤ slot k → last k = 0) :
    ∑ j, a j = ∑ k, last k := by
  rw [h.sum hs]
  refine Finset.sum_congr rfl fun k _ => ?_
  split
  · rfl
  · next hk => exact (hz k (not_lt.mp hk)).symm

end Slotted

end BallController.Lib
