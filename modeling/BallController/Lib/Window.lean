import BallController.Lib.Loop

/-! Sliding windows. A history is the list of all samples, newest first; its
window is the first `n` of them. A ring of `n` cells that every sample is
written round holds the window, and a running total from which the overwritten
cell is subtracted is its sum. The mean of a window is rounded down. -/

namespace BallController.Lib

private theorem succ_mod {m n : Nat} (h : (m + 1) % n ≠ 0) : (m + 1) % n = m % n + 1 := by
  rw [← Nat.mod_add_mod] at h ⊢
  rcases Nat.eq_zero_or_pos n with rfl | hn
  · rw [Nat.mod_zero]
  · rcases Nat.lt_or_ge (m % n + 1) n with hlt | hge
    · exact Nat.mod_eq_of_lt hlt
    · have hn' : m % n + 1 = n := le_antisymm (Nat.mod_lt m hn) hge
      rw [hn', Nat.mod_self] at h
      exact absurd rfl h

section Ring

variable {β : Type} {n : Nat}

/-- The cells after the samples of `l` have been written in turn from cell 0 on.
The newest sample is in the cell before the cursor `l.length % n`; cells that
no sample has reached hold zero. -/
def ring [Zero β] (n : Nat) (l : List β) : CArray n β :=
  fun j => l.getD ((l.length + n - 1 - j) % n) 0

/-- The ring of a projection of the samples. -/
theorem ring_map {γ : Type} [Zero β] [Zero γ] {f : β → γ} (hf : f 0 = 0) (l : List β) (j : Fin n) :
    ring n (l.map f) j = f (ring n l j) := by
  simp only [ring, List.length_map, List.getD_eq_getElem?_getD, List.getElem?_map]
  cases l[(l.length + n - 1 - j) % n]? with
  | none => exact hf.symm
  | some v => rfl

/-- Once the ring has been filled, every cell holds a sample of the window. -/
theorem ring_mem [Zero β] {l : List β} (hl : n ≤ l.length) (j : Fin n) : ring n l j ∈ l.take n := by
  have hn : 0 < n := Nat.zero_lt_of_lt j.isLt
  have hlt : (l.length + n - 1 - j) % n < n := Nat.mod_lt _ hn
  rw [ring, List.getD_eq_getElem _ _ (hlt.trans_le hl), List.mem_take_iff_getElem]
  exact ⟨_, lt_min hlt (hlt.trans_le hl), rfl⟩

theorem ring_nil [Zero β] : ring n ([] : List β) = 0 := rfl

/-- Going back from the cursor, the cells hold the samples from the newest on. -/
theorem ring_back [Zero β] (l : List β) {k : Nat} (hk : k < n) :
    ring n l ⟨(l.length + n - 1 - k) % n, Nat.mod_lt _ (by omega)⟩ = l.getD k 0 := by
  have hdiv := Nat.mod_add_div (l.length + n - 1 - k) n
  have hage : (l.length + n - 1 - (l.length + n - 1 - k) % n) % n = k := by
    have hk' : l.length + n - 1 - (l.length + n - 1 - k) % n =
        k + n * ((l.length + n - 1 - k) / n) := by omega
    rw [hk', Nat.add_mul_mod_self_left, Nat.mod_eq_of_lt hk]
  simp only [ring, hage]

/-- The cell under the cursor holds the sample that leaves the window next. -/
theorem ring_read [Zero β] (hn : 0 < n) (l : List β) :
    (ring n l).read (l.length % n) = l.getD (n - 1) 0 := by
  have h := ring_back (n := n) l (k := n - 1) (by omega)
  have hi : (l.length + n - 1 - (n - 1)) % n = l.length % n := by
    congr 1
    omega
  rw [CArray.read_of_lt _ (Nat.mod_lt _ hn), ← h]
  congr 1
  exact Fin.ext hi.symm

theorem ring_cons [Zero β] (hn : 0 < n) (l : List β) (v : β) :
    (ring n l).write (l.length % n) v = ring n (v :: l) := by
  funext j
  have hj := j.isLt
  have hdiv := Nat.mod_add_div l.length n
  have hlt := Nat.mod_lt l.length hn
  rw [CArray.write_apply]
  by_cases hc : j.val = l.length % n
  · -- the cell just written has age 0
    have hage : ((v :: l).length + n - 1 - j) % n = 0 := by
      have he : (v :: l).length + n - 1 - j = n * (l.length / n + 1) := by
        rw [List.length_cons, hc, mul_add]
        omega
      rw [he, Nat.mul_mod_right]
    rw [if_pos hc, ring, hage]
    rfl
  · -- every other cell ages by one
    have hne : (l.length + n - j) % n ≠ 0 := by
      intro h0
      obtain ⟨k, hk⟩ := Nat.dvd_of_mod_eq_zero h0
      have hmod : (j.val + n * k) % n = (l.length + n) % n := by
        congr 1
        omega
      rw [Nat.add_mul_mod_self_left, Nat.mod_eq_of_lt hj, Nat.add_mod_right] at hmod
      exact hc hmod
    have hage : ((v :: l).length + n - 1 - j) % n = (l.length + n - 1 - j) % n + 1 := by
      have he : (v :: l).length + n - 1 - j = l.length + n - 1 - j + 1 := by
        rw [List.length_cons]
        omega
      have he' : l.length + n - j = l.length + n - 1 - j + 1 := by omega
      rw [he'] at hne
      rw [he, succ_mod hne]
    rw [if_neg hc, ring, ring, hage]
    rfl

end Ring

section Totals

variable {β : Type} [AddCommGroup β] {n : Nat}

/-- Replacing one cell moves the sum by the difference. -/
theorem sum_write (a : CArray n β) {i : Nat} (hi : i < n) (v : β) :
    ∑ j, a.write i v j = ∑ j, a j - a.read i + v := by
  have h : a.write i v = Function.update a ⟨i, hi⟩ v := by
    funext j
    simp [Function.update_apply, Fin.ext_iff]
  rw [h, CArray.read_of_lt a hi, Finset.sum_update_of_mem (Finset.mem_univ _),
    Finset.sdiff_singleton_eq_erase, ← Finset.add_sum_erase Finset.univ a (Finset.mem_univ _)]
  abel

/-- A new sample moves the sum of the window by its difference with the one that
drops out. -/
theorem sum_take_cons (hn : 0 < n) (l : List β) (v : β) :
    ((v :: l).take n).sum = (l.take n).sum - l.getD (n - 1) 0 + v := by
  obtain ⟨m, rfl⟩ := Nat.exists_eq_add_one_of_ne_zero hn.ne'
  have hlast : (l.take (m + 1)).sum = (l.take m).sum + l.getD m 0 := by
    rw [List.take_add_one, List.sum_append, List.getD_eq_getElem?_getD]
    congr 1
    cases l[m]? with
    | none => rfl
    | some w => simp
  rw [List.take_succ_cons, List.sum_cons, hlast, Nat.add_sub_cancel]
  abel

/-- The ring holds the window. -/
theorem sum_ring (hn : 0 < n) (l : List β) : ∑ j, ring n l j = (l.take n).sum := by
  induction l with
  | nil => simp [ring_nil]
  | cons v l ih =>
    rw [← ring_cons hn, sum_write _ (Nat.mod_lt _ hn), ring_read hn, ih, sum_take_cons hn]

end Totals

section Past

variable {β : Type} {n : Nat}

/-- The history at time `k` of a quantity, back from time `k` to time 0 and `n`
times the initial value: with it a ring starts that is filled before its use. -/
def past (n : Nat) (v : Nat → β) : Nat → List β
  | 0 => List.replicate n (v 0)
  | k + 1 => v (k + 1) :: past n v k

@[simp] theorem length_past (v : Nat → β) (k : Nat) : (past n v k).length = k + n := by
  induction k with
  | zero => simp [past]
  | succ k ih =>
    rw [past, List.length_cons, ih]
    omega

/-- The window at time `k` holds the values of the last `n` times. -/
theorem take_past (v : Nat → β) (k : Nat) {m : Nat} (hm : m ≤ n) :
    (past n v k).take m = (List.range m).map fun i => v (k - i) := by
  induction k generalizing m with
  | zero =>
    simp only [past, List.take_replicate, Nat.zero_sub, List.map_const', List.length_range,
      min_eq_left hm]
  | succ k ih =>
    cases m with
    | zero => rfl
    | succ m =>
      rw [past, List.take_succ_cons, ih (by omega), List.range_succ_eq_map, List.map_cons,
        List.map_map]
      simp [Function.comp_def]

end Past

section Mean

variable {n : Nat}

/-- The mean of the last `n` samples, rounded down. -/
def windowMean (n : Nat) (l : List Int) : Int := ⌊((l.take n).sum : ℚ) / n⌋

theorem windowMean_eq (n : Nat) (l : List Int) : windowMean n l = (l.take n).sum / n :=
  Rat.floor_intCast_div_natCast _ _

theorem windowMean_mem (hn : 0 < n) {l : List Int} {b : Int} (hl : ∀ v ∈ l, 0 ≤ v ∧ v ≤ b)
    (hb : 0 ≤ b) : 0 ≤ windowMean n l ∧ windowMean n l ≤ b := by
  have h0 : 0 ≤ (l.take n).sum := List.sum_nonneg fun v hv => (hl v (List.mem_of_mem_take hv)).1
  have h1 : (l.take n).sum ≤ (l.take n).length • b :=
    List.sum_le_card_nsmul _ _ fun v hv => (hl v (List.mem_of_mem_take hv)).2
  have hlen : ((l.take n).length : Int) ≤ n := by exact_mod_cast List.length_take_le n l
  rw [windowMean_eq]
  refine ⟨Int.ediv_nonneg h0 (Int.natCast_nonneg n), ?_⟩
  apply Int.ediv_le_of_le_mul (by exact_mod_cast hn)
  calc (l.take n).sum ≤ ((l.take n).length : Int) * b := by simpa using h1
    _ ≤ n * b := mul_le_mul_of_nonneg_right hlen hb
    _ = b * n := mul_comm _ _

/-- Once the whole window is one value, so is the mean. -/
theorem windowMean_replicate (hn : 0 < n) (v : Int) (l : List Int) :
    windowMean n (List.replicate n v ++ l) = v := by
  have hne : (n : Int) ≠ 0 := by exact_mod_cast hn.ne'
  rw [windowMean_eq, List.take_left' List.length_replicate, List.sum_replicate, nsmul_eq_mul,
    mul_comm, Int.mul_ediv_cancel _ hne]

end Mean

end BallController.Lib
