import Mathlib

/-! Linear congruential sequences modulo a power of two. For a multiplier of the
form `4 k + 1` and an odd increment such a sequence takes every value once per
period, so what a period satisfies may be counted on the values. -/

namespace BallController.Lib

/-! ## Geometric sums -/

/-- The sum of `n` powers of an odd number has the parity of `n`. -/
theorem geom_mod_two {a : ℕ} (ha : a % 2 = 1) (n : ℕ) :
    (∑ i ∈ Finset.range n, a ^ i) % 2 = n % 2 := by
  induction n with
  | zero => rfl
  | succ n ih =>
    have hpow : a ^ n % 2 = 1 := by simp [Nat.pow_mod, ha]
    rw [Finset.sum_range_succ]
    omega

/-- An even number of summands is twice an odd multiple of half as many. -/
theorem exists_geom_double {a : ℕ} (ha : a % 4 = 1) (n : ℕ) :
    ∃ k, ∑ i ∈ Finset.range (2 * n), a ^ i = 2 * ((2 * k + 1) * ∑ i ∈ Finset.range n, a ^ i) := by
  have hpow : a ^ n % 4 = 1 := by simp [Nat.pow_mod, ha]
  refine ⟨a ^ n / 4, ?_⟩
  have hsplit : 1 + a ^ n = 2 * (2 * (a ^ n / 4) + 1) := by omega
  have hsum : ∑ i ∈ Finset.range (2 * n), a ^ i = (1 + a ^ n) * ∑ i ∈ Finset.range n, a ^ i := by
    rw [two_mul, Finset.sum_range_add, add_mul, one_mul, Finset.mul_sum]
    simp only [pow_add]
  rw [hsum, hsplit, mul_assoc]

/-- A power of two divides the sum exactly when it divides the number of summands. -/
theorem two_pow_dvd_geom_iff {a : ℕ} (ha : a % 4 = 1) (w n : ℕ) :
    2 ^ w ∣ ∑ i ∈ Finset.range n, a ^ i ↔ 2 ^ w ∣ n := by
  induction w generalizing n with
  | zero => simp
  | succ w ih =>
    have hpar := geom_mod_two (a := a) (by omega) n
    rcases Nat.even_or_odd' n with ⟨m, rfl | rfl⟩
    · obtain ⟨k, hk⟩ := exists_geom_double ha m
      have hodd : (2 ^ w).Coprime (2 * k + 1) := (Nat.coprime_two_left.mpr ⟨k, rfl⟩).pow_left w
      rw [hk, pow_succ', Nat.mul_dvd_mul_iff_left two_pos, Nat.mul_dvd_mul_iff_left two_pos,
        hodd.dvd_mul_left, ih]
    · have hnot : ∀ {m : ℕ}, m % 2 = 1 → ¬2 ^ (w + 1) ∣ m := by
        intro m hm hd
        have h2 : 2 ∣ m := (Dvd.intro_left (2 ^ w) rfl).trans hd
        omega
      exact iff_of_false (hnot (by omega)) (hnot (by omega))

/-! ## Counting the values -/

/-- The numbers of one block of length `k`. -/
theorem card_filter_div {m k v : ℕ} (hv : v < m) :
    ((Finset.range (m * k)).filter fun y => y / k = v).card = k := by
  rcases Nat.eq_zero_or_pos k with rfl | hk
  · rfl
  have hend : v * k + k ≤ m * k := by
    rw [← Nat.succ_mul]
    exact Nat.mul_le_mul_right k hv
  have hblock : (Finset.range (m * k)).filter (fun y => y / k = v) = Finset.Ico (v * k) (v * k + k) := by
    ext y
    rw [Finset.mem_filter, Finset.mem_range, Finset.mem_Ico, Nat.div_eq_iff hk]
    omega
  rw [hblock, Nat.card_Ico, Nat.add_sub_cancel_left]

/-- The numbers of one parity of a block. -/
theorem card_filter_mod_two_div {m k v b : ℕ} (hv : v < m) (hb : b < 2) :
    ((Finset.range (m * (2 * k))).filter fun y => y % 2 = b ∧ y / (2 * k) = v).card = k := by
  rcases Nat.eq_zero_or_pos k with rfl | hk
  · rfl
  have hend : v * (2 * k) + 2 * k ≤ m * (2 * k) := by
    rw [← Nat.succ_mul]
    exact Nat.mul_le_mul_right _ hv
  have heven : v * (2 * k) = 2 * (v * k) := Nat.mul_left_comm v 2 k
  refine Eq.trans (Finset.card_bij (fun j _ => v * (2 * k) + (2 * j + b)) ?_
    (fun _ _ _ _ h => by omega) ?_).symm (Finset.card_range k)
  · intro j hj
    have hj' := Finset.mem_range.mp hj
    refine Finset.mem_filter.mpr ⟨Finset.mem_range.mpr (by omega), by omega, ?_⟩
    rw [Nat.div_eq_iff (by omega)]
    omega
  · intro y hy
    obtain ⟨-, hpar, hdiv⟩ := Finset.mem_filter.mp hy
    rw [Nat.div_eq_iff (by omega)] at hdiv
    exact ⟨(y - v * (2 * k)) / 2, Finset.mem_range.mpr (by omega), by omega⟩

/-! ## Sequences -/

/-- The values of a generator with multiplier `a` and increment `c`. -/
structure Congruential (a c w : ℕ) (x : ℕ → ℕ) : Prop where
  lt : ∀ n, x n < 2 ^ w
  step : ∀ n, x (n + 1) ≡ a * x n + c [MOD 2 ^ w]

namespace Congruential

variable {a c w : ℕ} {x : ℕ → ℕ}

theorem shift (h : Congruential a c w x) (k : ℕ) : Congruential a c w fun n => x (n + k) :=
  ⟨fun n => h.lt (n + k), fun n => by
    rw [Nat.add_right_comm]
    exact h.step (n + k)⟩

theorem add_modEq (h : Congruential a c w x) (n d : ℕ) :
    x (n + d) ≡ a ^ d * x n + c * ∑ i ∈ Finset.range d, a ^ i [MOD 2 ^ w] := by
  induction d with
  | zero =>
    rw [pow_zero, one_mul, Finset.range_zero, Finset.sum_empty, mul_zero]
    exact Nat.ModEq.refl _
  | succ d ih =>
    have hsum : a * (a ^ d * x n + c * ∑ i ∈ Finset.range d, a ^ i) + c =
        a ^ (d + 1) * x n + c * ∑ i ∈ Finset.range (d + 1), a ^ i := by
      rw [Finset.sum_range_succ', pow_zero, Finset.sum_congr rfl fun i _ => pow_succ' a i,
        ← Finset.mul_sum]
      ring
    rw [← hsum]
    exact (h.step (n + d)).trans ((ih.mul_left a).add_right c)

/-- The sequence repeats itself after the multiples of the modulus and only
there. -/
theorem add_eq_iff (h : Congruential a c w x) (ha : a % 4 = 1) (hc : c % 2 = 1) (n d : ℕ) :
    x (n + d) = x n ↔ 2 ^ w ∣ d := by
  have hadd := h.add_modEq n d
  -- the difference is the geometric sum, times an odd number
  have hpow : a ^ d = (a - 1) * (∑ i ∈ Finset.range d, a ^ i) + 1 := by
    have hg := geom_sum_mul_add (a - 1) d
    rw [Nat.sub_add_cancel (by omega), mul_comm] at hg
    exact hg.symm
  have hval : a ^ d * x n + c * ∑ i ∈ Finset.range d, a ^ i =
      x n + ((a - 1) * x n + c) * ∑ i ∈ Finset.range d, a ^ i := by
    rw [hpow]
    ring
  have hodd : (2 ^ w).Coprime ((a - 1) * x n + c) := by
    refine (Nat.coprime_two_left.mpr (Nat.odd_iff.mpr ?_)).pow_left w
    have heven : (a - 1) % 2 = 0 := by omega
    rw [Nat.add_mod, Nat.mul_mod, heven, zero_mul, Nat.zero_mod, zero_add, Nat.mod_mod, hc]
  rw [hval] at hadd
  have hlt : x (n + d) = x n ↔ x (n + d) ≡ x n [MOD 2 ^ w] :=
    ⟨fun he => he ▸ Nat.ModEq.refl _, fun hm => hm.eq_of_lt_of_lt (h.lt _) (h.lt _)⟩
  have hzero : x n + ((a - 1) * x n + c) * (∑ i ∈ Finset.range d, a ^ i) ≡ x n [MOD 2 ^ w] ↔
      2 ^ w ∣ ((a - 1) * x n + c) * ∑ i ∈ Finset.range d, a ^ i := by
    rw [Nat.ModEq.comm, Nat.modEq_iff_dvd' (Nat.le_add_right _ _), Nat.add_sub_cancel_left]
  rw [hlt, ← two_pow_dvd_geom_iff ha, ← hodd.dvd_mul_left, ← hzero]
  exact ⟨fun h' => hadd.symm.trans h', fun h' => hadd.trans h'⟩

theorem injOn (h : Congruential a c w x) (ha : a % 4 = 1) (hc : c % 2 = 1) :
    Set.InjOn x (Finset.range (2 ^ w)) := by
  have hle : ∀ m n, m ≤ n → n < 2 ^ w → x m = x n → m = n := by
    intro m n hmn hn he
    have hd := (h.add_eq_iff ha hc m (n - m)).mp (by rw [Nat.add_sub_cancel' hmn, he])
    have := Nat.eq_zero_of_dvd_of_lt hd (by omega)
    omega
  intro m hm n hn he
  rw [Finset.coe_range, Set.mem_Iio] at hm hn
  rcases le_total m n with hmn | hmn
  · exact hle m n hmn hn he
  · exact (hle n m hmn hm he.symm).symm

/-- A period takes every value once. -/
theorem image_range (h : Congruential a c w x) (ha : a % 4 = 1) (hc : c % 2 = 1) :
    (Finset.range (2 ^ w)).image x = Finset.range (2 ^ w) := by
  refine Finset.eq_of_subset_of_card_le ?_ ?_
  · intro y hy
    obtain ⟨n, -, rfl⟩ := Finset.mem_image.mp hy
    exact Finset.mem_range.mpr (h.lt n)
  · rw [Finset.card_image_of_injOn (h.injOn ha hc)]

/-- So a property is had as often in a period as among the values. -/
theorem card_filter (h : Congruential a c w x) (ha : a % 4 = 1) (hc : c % 2 = 1) (P : ℕ → Prop)
    [DecidablePred P] : ((Finset.range (2 ^ w)).filter fun n => P (x n)).card =
      ((Finset.range (2 ^ w)).filter P).card := by
  conv_rhs => rw [← h.image_range ha hc]
  rw [Finset.filter_image, Finset.card_image_of_injOn]
  exact (h.injOn ha hc).mono (Finset.coe_subset.mpr (Finset.filter_subset _ _))

/-! ## Every second value -/

/-- The parity of the values alternates. -/
theorem mod_two (h : Congruential a c (w + 1) x) (ha : a % 2 = 1) (hc : c % 2 = 1) (n : ℕ) :
    x n % 2 = (x 0 + n) % 2 := by
  induction n with
  | zero => rfl
  | succ n ih =>
    have hstep : x (n + 1) % 2 = (a * x n + c) % 2 :=
      (h.step n).of_dvd (Dvd.intro_left (2 ^ w) rfl)
    have hmul : a * x n % 2 = x n % 2 := by rw [Nat.mul_mod, ha, one_mul, Nat.mod_mod]
    omega

/-- Over a period, the values with an even index are those of one parity. -/
theorem card_filter_even (h : Congruential a c (w + 1) x) (ha : a % 4 = 1) (hc : c % 2 = 1)
    (P : ℕ → Prop) [DecidablePred P] : ((Finset.range (2 ^ w)).filter fun k => P (x (2 * k))).card =
      ((Finset.range (2 ^ (w + 1))).filter fun y => y % 2 = x 0 % 2 ∧ P y).card := by
  rw [← h.card_filter ha hc fun y => y % 2 = x 0 % 2 ∧ P y]
  refine Finset.card_bij (fun k _ => 2 * k) ?_ (fun _ _ _ _ h => by omega) ?_
  · intro k hk
    obtain ⟨hlt, hP⟩ := Finset.mem_filter.mp hk
    have hk' := Finset.mem_range.mp hlt
    have hpar := h.mod_two (by omega) hc (2 * k)
    refine Finset.mem_filter.mpr ⟨Finset.mem_range.mpr ?_, by omega, hP⟩
    rw [pow_succ]
    omega
  · intro n hn
    obtain ⟨hlt, hpar, hP⟩ := Finset.mem_filter.mp hn
    have hn' := Finset.mem_range.mp hlt
    have heven := h.mod_two (by omega) hc n
    have htwo : 2 * (n / 2) = n := by omega
    refine ⟨n / 2, Finset.mem_filter.mpr ⟨Finset.mem_range.mpr ?_, by rwa [htwo]⟩, htwo⟩
    rw [pow_succ] at hn'
    omega

end Congruential

end BallController.Lib
