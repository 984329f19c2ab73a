import Mathlib

/-! A value that is fed back with a delay of one step. Its gain `g` and the leak
`h` into an input that dies out settle geometrically, to `G` and 0. For `G ≤ 1`
every trajectory is bounded, for `G < 1` it decays; for `G > 1` the bounded ones
form a line at most. -/

namespace BallController.Lib.Feedback

/-- The value, the value before it, and the input that dies out. -/
@[ext]
structure State where
  x : ℝ
  y : ℝ
  p : ℝ

namespace State

/-- What is fed back. -/
noncomputable def signal (γ : ℝ) (s : State) : ℝ := γ * s.x - s.y

noncomputable def next (γ g h : ℝ) (s : State) : State :=
  ⟨s.x + s.p + g * s.signal γ, s.x, s.p / 2 + h * s.signal γ⟩

noncomputable def zero : State := ⟨0, 0, 0⟩

/-- A linear combination. -/
noncomputable def comb (a : ℝ) (s : State) (b : ℝ) (t : State) : State :=
  ⟨a * s.x + b * t.x, a * s.y + b * t.y, a * s.p + b * t.p⟩

theorem next_comb (γ g h a b : ℝ) (s t : State) :
    (comb a s b t).next γ g h = comb a (s.next γ g h) b (t.next γ g h) := by
  ext
  · simp only [next, comb, signal]
    ring
  · rfl
  · simp only [next, comb, signal]
    ring

/-- A step loses nothing when the gain is not twice the leak. -/
theorem eq_zero_of_next {γ g h : ℝ} (hgh : g ≠ 2 * h) {s : State} (hs : s.next γ g h = zero) :
    s = zero := by
  obtain ⟨h1, h2, h3⟩ := State.mk.inj hs
  have hsig : (g - 2 * h) * s.signal γ = 0 := by
    rw [h2] at h1
    linear_combination h1 - 2 * h3
  have h0 : s.signal γ = 0 := by
    rcases mul_eq_zero.mp hsig with h | h
    · exact absurd (sub_eq_zero.mp h) hgh
    · exact h
  have hp : s.p = 0 := by
    rw [h0, mul_zero, add_zero] at h3
    linarith
  have hy : s.y = 0 := by
    rw [signal, h2, mul_zero, zero_sub] at h0
    linarith
  exact State.ext h2 hy hp

end State

/-! ## The gauge -/

/-- The distance of a value and its predecessor from the ratio `ω`. -/
noncomputable def gauge (ω : ℂ) (x y : ℝ) : ℝ := ‖(x : ℂ) - ω * y‖

theorem gauge_nonneg (ω : ℂ) (x y : ℝ) : 0 ≤ gauge ω x y := norm_nonneg _

theorem gauge_add_le (ω : ℂ) (x y ξ : ℝ) : gauge ω (x + ξ) y ≤ gauge ω x y + |ξ| := by
  have h : ((x + ξ : ℝ) : ℂ) - ω * y = ((x : ℂ) - ω * y) + (ξ : ℂ) := by
    push_cast
    ring
  have hn := norm_add_le ((x : ℂ) - ω * y) (ξ : ℂ)
  rw [Complex.norm_real] at hn
  rw [gauge, h]
  exact hn

theorem gauge_le_add (ω : ℂ) (x y : ℝ) : gauge ω x y ≤ |x| + ‖ω‖ * |y| := by
  have h := norm_sub_le (x : ℂ) (ω * y)
  rw [norm_mul, Complex.norm_real, Complex.norm_real] at h
  exact h

theorem gauge_sq (ω : ℂ) (x y : ℝ) :
    gauge ω x y ^ 2 = x ^ 2 - 2 * ω.re * x * y + Complex.normSq ω * y ^ 2 := by
  rw [gauge, ← Complex.normSq_eq_norm_sq, Complex.normSq_apply, Complex.normSq_apply]
  simp only [Complex.sub_re, Complex.sub_im, Complex.mul_re, Complex.mul_im, Complex.ofReal_re,
    Complex.ofReal_im]
  ring

/-- A gauge that is not real controls both values. -/
theorem exists_le_gauge {ω : ℂ} (hω : ω.im ≠ 0) :
    ∃ L, 0 < L ∧ ∀ x y, |x| ≤ L * gauge ω x y ∧ |y| ≤ L * gauge ω x y := by
  have him : 0 < |ω.im| := abs_pos.mpr hω
  have hy : ∀ x y, |y| ≤ gauge ω x y / |ω.im| := by
    intro x y
    have h := Complex.abs_im_le_norm ((x : ℂ) - ω * y)
    have hc : ((x : ℂ) - ω * y).im = -(ω.im * y) := by simp
    rw [hc, abs_neg, abs_mul] at h
    rw [le_div_iff₀ him]
    linarith [show gauge ω x y = ‖(x : ℂ) - ω * y‖ from rfl]
  have hx : ∀ x y, |x| ≤ gauge ω x y + ‖ω‖ * |y| := by
    intro x y
    have h := norm_add_le ((x : ℂ) - ω * y) (ω * y)
    rw [sub_add_cancel, norm_mul, Complex.norm_real, Complex.norm_real] at h
    exact h
  refine ⟨1 + (1 + ‖ω‖) / |ω.im|, by positivity, fun x y => ⟨?_, ?_⟩⟩
  · have hg := gauge_nonneg ω x y
    calc |x| ≤ gauge ω x y + ‖ω‖ * |y| := hx x y
      _ ≤ gauge ω x y + ‖ω‖ * (gauge ω x y / |ω.im|) := by
        gcongr
        exact hy x y
      _ ≤ gauge ω x y + ‖ω‖ * (gauge ω x y / |ω.im|) + gauge ω x y / |ω.im| :=
        le_add_of_nonneg_right (by positivity)
      _ = (1 + (1 + ‖ω‖) / |ω.im|) * gauge ω x y := by ring
  · have hg := gauge_nonneg ω x y
    calc |y| ≤ gauge ω x y / |ω.im| := hy x y
      _ ≤ gauge ω x y / |ω.im| + (gauge ω x y + ‖ω‖ * (gauge ω x y / |ω.im|)) :=
        le_add_of_nonneg_right (by positivity)
      _ = (1 + (1 + ‖ω‖) / |ω.im|) * gauge ω x y := by ring

/-- A ratio with a given real part and modulus. -/
theorem exists_ratio {b N : ℝ} (h : b ^ 2 < 4 * N) :
    ∃ ω : ℂ, ω.re = b / 2 ∧ Complex.normSq ω = N ∧ ω.im ≠ 0 := by
  have hpos : 0 < N - b ^ 2 / 4 := by linarith
  refine ⟨⟨b / 2, √(N - b ^ 2 / 4)⟩, rfl, ?_, (Real.sqrt_pos.mpr hpos).ne'⟩
  rw [Complex.normSq_mk, Real.mul_self_sqrt hpos.le]
  ring

theorem sq_le_of_gain_le {γ G : ℝ} (h0 : 0 ≤ γ) (h1 : γ ≤ 1 / 2) (hG0 : 0 ≤ G) (hG1 : G ≤ 1) :
    (1 + γ * G) ^ 2 ≤ 1 + 2 * G := by
  have hγG : γ * G ≤ G / 2 := by
    have h := mul_le_mul_of_nonneg_right h1 hG0
    linarith
  nlinarith [mul_nonneg h0 hG0]

/-- A gain of 1 at most does not increase the gauge of this ratio, ... -/
theorem gauge_next_le {γ G : ℝ} (h0 : 0 ≤ γ) (h1 : γ ≤ 1 / 2) (hG0 : 0 ≤ G) (hG1 : G ≤ 1) {ω : ℂ}
    (hre : ω.re = (1 + γ * G) / 2) (hsq : Complex.normSq ω = (1 + G) / 2) (x y : ℝ) :
    gauge ω (x + G * (γ * x - y)) x ≤ gauge ω x y := by
  have hb := sq_le_of_gain_le h0 h1 hG0 hG1
  have hform : 0 ≤ x ^ 2 - 2 * (1 + γ * G) * x * y + (1 + 2 * G) * y ^ 2 := by
    nlinarith [sq_nonneg (x - (1 + γ * G) * y), mul_nonneg (sub_nonneg.mpr hb) (sq_nonneg y)]
  have hdiff : gauge ω x y ^ 2 - gauge ω (x + G * (γ * x - y)) x ^ 2 =
      (1 - G) / 2 * (x ^ 2 - 2 * (1 + γ * G) * x * y + (1 + 2 * G) * y ^ 2) := by
    rw [gauge_sq, gauge_sq, hre, hsq]
    ring
  have hle : 0 ≤ gauge ω x y ^ 2 - gauge ω (x + G * (γ * x - y)) x ^ 2 :=
    hdiff ▸ mul_nonneg (by linarith) hform
  exact le_of_sq_le_sq (by linarith) (gauge_nonneg ω x y)

/-- ... and that of the characteristic root grows by the root of the gain. -/
theorem gauge_next_eq {γ G : ℝ} (hG : 0 ≤ G) {ω : ℂ} (hre : ω.re = (1 + γ * G) / 2)
    (hsq : Complex.normSq ω = G) (x y : ℝ) :
    gauge ω (x + G * (γ * x - y)) x = √G * gauge ω x y := by
  have h : gauge ω (x + G * (γ * x - y)) x ^ 2 = (√G * gauge ω x y) ^ 2 := by
    rw [mul_pow, Real.sq_sqrt hG, gauge_sq, gauge_sq, hre, hsq]
    ring
  exact (sq_eq_sq₀ (gauge_nonneg _ _ _) (mul_nonneg (Real.sqrt_nonneg _) (gauge_nonneg _ _ _))).mp h

/-! ## Trajectories -/

/-- The gains `g` and leaks `h` settle to `G` and 0. -/
structure Settles (G C : ℝ) (g h : ℕ → ℝ) : Prop where
  gain : ∀ k, |g k - G| ≤ C * (1 / 2) ^ k
  leak : ∀ k, |h k| ≤ C * (1 / 2) ^ k

def Trajectory (γ : ℝ) (g h : ℕ → ℝ) (s : ℕ → State) : Prop :=
  ∀ k, s (k + 1) = (s k).next γ (g k) (h k)

def Bounded (u : ℕ → ℝ) : Prop := ∃ B, ∀ k, |u k| ≤ B

/-- Boundedness is a matter of the tail. -/
theorem bounded_of_tail {u : ℕ → ℝ} (n : ℕ) (h : Bounded fun k => u (k + n)) : Bounded u := by
  induction n with
  | zero => exact h
  | succ n ih =>
    obtain ⟨B, hB⟩ := h
    refine ih ⟨max B |u n|, fun k => ?_⟩
    cases k with
    | zero => exact (congrArg (fun m => |u m|) (Nat.zero_add n)).le.trans (le_max_right _ _)
    | succ k =>
      have hk : k + (n + 1) = k + 1 + n := by omega
      have h := hB k
      simp only [hk] at h
      exact h.trans (le_max_left _ _)

theorem Settles.nonneg {G C : ℝ} {g h : ℕ → ℝ} (hs : Settles G C g h) : 0 ≤ C := by
  have h0 := (abs_nonneg _).trans (hs.leak 0)
  rwa [pow_zero, mul_one] at h0

theorem Settles.shift {G C : ℝ} {g h : ℕ → ℝ} (hs : Settles G C g h) (n : ℕ) :
    Settles G C (fun k => g (k + n)) fun k => h (k + n) := by
  have hC := hs.nonneg
  have hp : ∀ k, C * (1 / 2 : ℝ) ^ (k + n) ≤ C * (1 / 2) ^ k := fun k =>
    mul_le_mul_of_nonneg_left (pow_le_pow_of_le_one (by norm_num) (by norm_num) (by omega)) hC
  exact ⟨fun k => (hs.gain _).trans (hp k), fun k => (hs.leak _).trans (hp k)⟩

section Laws

variable {γ G C : ℝ} {g h : ℕ → ℝ} {s t : ℕ → State}

theorem Trajectory.comb (hs : Trajectory γ g h s) (ht : Trajectory γ g h t) (a b : ℝ) :
    Trajectory γ g h fun k => State.comb a (s k) b (t k) := by
  intro k
  show State.comb a (s (k + 1)) b (t (k + 1)) = _
  rw [hs k, ht k, State.next_comb]

/-- A trajectory that ends at zero has been zero all along. -/
theorem Trajectory.eq_zero (hs : Trajectory γ g h s) (hgh : ∀ k, g k ≠ 2 * h k) {k : ℕ}
    (hk : s k = State.zero) : s 0 = State.zero := by
  induction k with
  | zero => exact hk
  | succ k ih =>
    rw [hs k] at hk
    exact ih (State.eq_zero_of_next (hgh k) hk)

theorem Trajectory.y_succ (hs : Trajectory γ g h s) (k : ℕ) : (s (k + 1)).y = (s k).x := by
  rw [hs k]
  rfl

/-- The step of a trajectory, as a deviation from the settled loop. -/
theorem Trajectory.x_succ (hs : Trajectory γ g h s) (k : ℕ) :
    (s (k + 1)).x = (s k).x + G * (γ * (s k).x - (s k).y) +
      ((s k).p + (g k - G) * (s k).signal γ) := by
  rw [hs k]
  simp only [State.next, State.signal]
  ring

theorem Settles.deviation_le (hset : Settles G C g h) (s : ℕ → State) (k : ℕ) :
    |(s k).p + (g k - G) * (s k).signal γ| ≤ |(s k).p| + C * (1 / 2) ^ k * |(s k).signal γ| := by
  refine (abs_add_le _ _).trans ?_
  rw [abs_mul]
  have := mul_le_mul_of_nonneg_right (hset.gain k) (abs_nonneg ((s k).signal γ))
  linarith

theorem Trajectory.p_succ_le (hs : Trajectory γ g h s) (hset : Settles G C g h) (k : ℕ) :
    |(s (k + 1)).p| ≤ |(s k).p| / 2 + C * (1 / 2) ^ k * |(s k).signal γ| := by
  rw [hs k]
  refine (abs_add_le _ _).trans ?_
  rw [abs_div, abs_mul, abs_of_pos (by norm_num : (0 : ℝ) < 2)]
  have := mul_le_mul_of_nonneg_right (hset.leak k) (abs_nonneg ((s k).signal γ))
  linarith

theorem abs_signal_le (h0 : 0 ≤ γ) (h1 : γ ≤ 1 / 2) {ω : ℂ} {L : ℝ}
    (hL : ∀ x y, |x| ≤ L * gauge ω x y ∧ |y| ≤ L * gauge ω x y) (s : State) :
    |s.signal γ| ≤ 2 * L * gauge ω s.x s.y := by
  obtain ⟨hx, hy⟩ := hL s.x s.y
  have h := abs_sub (γ * s.x) s.y
  rw [abs_mul, abs_of_nonneg h0] at h
  have hγ := mul_le_mul_of_nonneg_right h1 (abs_nonneg s.x)
  have h2 := abs_nonneg s.x
  rw [State.signal]
  linarith

theorem Settles.signal_le (hset : Settles G C g h) (h0 : 0 ≤ γ) (h1 : γ ≤ 1 / 2) {ω : ℂ} {L : ℝ}
    (hL : ∀ x y, |x| ≤ L * gauge ω x y ∧ |y| ≤ L * gauge ω x y) (s : ℕ → State) (k : ℕ) :
    C * (1 / 2) ^ k * |(s k).signal γ| ≤
      C * (1 / 2) ^ k * (2 * L * gauge ω (s k).x (s k).y) := by
  have hC := hset.nonneg
  exact mul_le_mul_of_nonneg_left (abs_signal_le h0 h1 hL _) (by positivity)

/-- With a settled gain of 1 at most every trajectory is bounded. -/
theorem Trajectory.bounded (hs : Trajectory γ g h s) (hset : Settles G C g h) (h0 : 0 ≤ γ)
    (h1 : γ ≤ 1 / 2) (hG0 : 0 ≤ G) (hG1 : G ≤ 1) : Bounded fun k => (s k).signal γ := by
  have hC := hset.nonneg
  have hb := sq_le_of_gain_le h0 h1 hG0 hG1
  obtain ⟨ω, hre, hsq, him⟩ := exists_ratio (b := 1 + γ * G) (N := (1 + G) / 2) (by linarith)
  obtain ⟨L, hL, hc⟩ := exists_le_gauge him
  let t : ℕ → ℝ := fun k => gauge ω (s k).x (s k).y + 2 * |(s k).p|
  have ht : ∀ k, 0 ≤ t k := fun k => add_nonneg (gauge_nonneg _ _ _) (by positivity)
  have hstep : ∀ k, t (k + 1) ≤ (1 + 6 * L * C * (1 / 2) ^ k) * t k := by
    intro k
    have hg : gauge ω (s (k + 1)).x (s (k + 1)).y ≤ gauge ω (s k).x (s k).y +
        (|(s k).p| + C * (1 / 2) ^ k * |(s k).signal γ|) := by
      rw [hs.x_succ (G := G), hs.y_succ]
      refine (gauge_add_le _ _ _ _).trans (add_le_add ?_ (hset.deviation_le s k))
      exact gauge_next_le h0 h1 hG0 hG1 hre hsq _ _
    have hp := hs.p_succ_le hset k
    have hsig := hset.signal_le h0 h1 hc s k
    have hrest : 0 ≤ 6 * L * C * (1 / 2) ^ k * (2 * |(s k).p|) := by positivity
    simp only [t]
    linarith
  have hbound : ∀ k, t k ≤ t 0 * Real.exp (12 * L * C) := by
    intro k
    have hgr : t k ≤ (t 0 + ∑ i ∈ Finset.Ico 0 k, (0 : ℝ)) *
        Real.exp (∑ i ∈ Finset.Ico 0 k, 6 * L * C * (1 / 2) ^ i) :=
      discrete_gronwall (ht 0) (fun k _ => (hstep k).trans_eq (add_zero _).symm)
        (fun k _ => by positivity) (fun _ _ => le_rfl) (Nat.zero_le k)
    rw [Finset.sum_const_zero, add_zero, ← Finset.range_eq_Ico, ← Finset.mul_sum] at hgr
    refine hgr.trans (mul_le_mul_of_nonneg_left (Real.exp_le_exp.mpr ?_) (ht 0))
    have hsum := mul_le_mul_of_nonneg_left (sum_geometric_two_le k)
      (by positivity : 0 ≤ 6 * L * C)
    linarith
  refine ⟨2 * L * (t 0 * Real.exp (12 * L * C)), fun k => ?_⟩
  have hle : gauge ω (s k).x (s k).y ≤ t k := le_add_of_nonneg_right (by positivity)
  exact (abs_signal_le h0 h1 hc _).trans
    (mul_le_mul_of_nonneg_left (hle.trans (hbound k)) (by positivity))

/-! ## Growth -/

theorem not_bounded_of_growth {q : ℝ} (hq : 1 < q) {u : ℕ → ℝ} (hu : ∀ k, q * u k ≤ u (k + 1))
    (h0 : 0 < u 0) : ¬∃ B, ∀ k, u k ≤ B := by
  rintro ⟨B, hB⟩
  have hpow : ∀ k, q ^ k * u 0 ≤ u k := by
    intro k
    induction k with
    | zero => rw [pow_zero, one_mul]
    | succ k ih =>
      calc q ^ (k + 1) * u 0 = q * (q ^ k * u 0) := by ring
        _ ≤ q * u k := mul_le_mul_of_nonneg_left ih (by linarith)
        _ ≤ u (k + 1) := hu k
  obtain ⟨k, hk⟩ := pow_unbounded_of_one_lt (B / u 0) hq
  rw [div_lt_iff₀ h0] at hk
  exact absurd (hk.trans_le (hpow k)) (not_lt.mpr (hB k))

/-- What halves becomes as small as needed. -/
theorem exists_mul_pow_le {M ε : ℝ} (hM : 0 ≤ M) (hε : 0 < ε) :
    ∃ K, ∀ k ≥ K, M * (1 / 2 : ℝ) ^ k ≤ ε := by
  obtain ⟨K, hK⟩ := exists_pow_lt_of_lt_one (show 0 < ε / (M + 1) from div_pos hε (by linarith))
    (by norm_num : (1 / 2 : ℝ) < 1)
  refine ⟨K, fun k hk => ?_⟩
  rw [lt_div_iff₀ (by linarith)] at hK
  have hp : (1 / 2 : ℝ) ^ k ≤ (1 / 2) ^ K :=
    pow_le_pow_of_le_one (by norm_num) (by norm_num) hk
  have hp0 : (0 : ℝ) ≤ (1 / 2) ^ K := by positivity
  have hm := mul_le_mul_of_nonneg_left hp hM
  linarith

/-- Where the deviation is small, the gauge of the characteristic root outgrows
the dying input. -/
theorem Trajectory.gauge_growth (hs : Trajectory γ g h s) (hset : Settles G C g h) (h0 : 0 ≤ γ)
    (h1 : γ ≤ 1 / 2) (hG : 1 < G) {ω : ℂ} (hre : ω.re = (1 + γ * G) / 2)
    (hsq : Complex.normSq ω = G) {L : ℝ}
    (hc : ∀ x y, |x| ≤ L * gauge ω x y ∧ |y| ≤ L * gauge ω x y) {k : ℕ}
    (hsmall : 6 * L * C * (1 / 2 : ℝ) ^ k ≤ (√G - 1) / 2) :
    (1 + √G) / 2 * (gauge ω (s k).x (s k).y - 2 * |(s k).p|) ≤
      gauge ω (s (k + 1)).x (s (k + 1)).y - 2 * |(s (k + 1)).p| := by
  have hq : 1 < √G := Real.lt_sqrt_of_sq_lt (by linarith)
  have hg : √G * gauge ω (s k).x (s k).y ≤ gauge ω (s (k + 1)).x (s (k + 1)).y +
      (|(s k).p| + C * (1 / 2) ^ k * |(s k).signal γ|) := by
    have hx := hs.x_succ (G := G) k
    have hback := gauge_add_le ω (s (k + 1)).x (s k).x (-((s k).p + (g k - G) * (s k).signal γ))
    rw [show (s (k + 1)).x + -((s k).p + (g k - G) * (s k).signal γ) =
      (s k).x + G * (γ * (s k).x - (s k).y) by linarith,
      gauge_next_eq (by linarith) hre hsq, abs_neg] at hback
    rw [hs.y_succ]
    exact hback.trans (add_le_add_right (hset.deviation_le s k) _)
  have hp := hs.p_succ_le hset k
  have hsig := hset.signal_le h0 h1 hc s k
  have hgauge := mul_le_mul_of_nonneg_right hsmall (gauge_nonneg ω (s k).x (s k).y)
  have hqp : 0 ≤ ((1 + √G) / 2 - 1) * (2 * |(s k).p|) := mul_nonneg (by linarith) (by positivity)
  linarith

/-- A bounded value has a bounded gauge. -/
theorem Trajectory.exists_gauge_le (hs : Trajectory γ g h s) (hbd : Bounded fun k => (s k).x)
    (ω : ℂ) : ∃ B, ∀ k, gauge ω (s k).x (s k).y ≤ B := by
  obtain ⟨B, hB⟩ := hbd
  refine ⟨B + ‖ω‖ * (B + |(s 0).y|), fun k => ?_⟩
  have hy : |(s k).y| ≤ B + |(s 0).y| := by
    cases k with
    | zero => linarith [(abs_nonneg _).trans (hB 0)]
    | succ m =>
      rw [hs.y_succ]
      linarith [hB m, abs_nonneg (s 0).y]
  have hsum := gauge_le_add ω (s k).x (s k).y
  have hω := mul_le_mul_of_nonneg_left hy (norm_nonneg ω)
  linarith [hB k]

/-- With a larger gain the bounded trajectories are those that follow the dying
input, from an index on that depends on the gains alone. -/
theorem exists_le_of_bounded (hset : Settles G C g h) (h0 : 0 ≤ γ) (h1 : γ ≤ 1 / 2) (hG : 1 < G)
    (hγ : (1 + γ * G) ^ 2 < 4 * G) :
    ∃ K L, ∀ s, Trajectory γ g h s → Bounded (fun k => (s k).x) → ∀ k ≥ K,
      |(s k).x| ≤ L * |(s k).p| ∧ |(s k).y| ≤ L * |(s k).p| := by
  have hC := hset.nonneg
  obtain ⟨ω, hre, hsq, him⟩ := exists_ratio hγ
  obtain ⟨L, hL, hc⟩ := exists_le_gauge him
  have hq : 1 < √G := Real.lt_sqrt_of_sq_lt (by linarith)
  obtain ⟨K, hK⟩ := exists_mul_pow_le (by positivity : 0 ≤ 6 * L * C)
    (by linarith : 0 < (√G - 1) / 2)
  refine ⟨K, 2 * L, fun s hs hbd k hk => ?_⟩
  have hle : gauge ω (s k).x (s k).y ≤ 2 * |(s k).p| := by
    by_contra hlt
    obtain ⟨B, hB⟩ := hs.exists_gauge_le hbd ω
    refine not_bounded_of_growth (q := (1 + √G) / 2) (by linarith)
      (u := fun j => gauge ω (s (k + j)).x (s (k + j)).y - 2 * |(s (k + j)).p|)
      (fun j => hs.gauge_growth hset h0 h1 hG hre hsq hc (hK (k + j) (by omega)))
      (by simpa using not_le.mp hlt) ⟨B, fun j => ?_⟩
    have hp : 0 ≤ 2 * |(s (k + j)).p| := by positivity
    linarith [hB (k + j)]
  obtain ⟨hx, hy⟩ := hc (s k).x (s k).y
  have hm := mul_le_mul_of_nonneg_left hle hL.le
  constructor
  · linarith
  · linarith

/-- So two bounded trajectories are proportional. -/
theorem exists_comb_eq_zero (hset : Settles G C g h) (h0 : 0 ≤ γ) (h1 : γ ≤ 1 / 2) (hG : 1 < G)
    (hγ : (1 + γ * G) ^ 2 < 4 * G) (hgh : ∀ k, g k ≠ 2 * h k) (hs : Trajectory γ g h s)
    (ht : Trajectory γ g h t) (bs : Bounded fun k => (s k).x) (bt : Bounded fun k => (t k).x) :
    ∃ a b, ¬(a = 0 ∧ b = 0) ∧ State.comb a (s 0) b (t 0) = State.zero := by
  obtain ⟨K, L, hK⟩ := exists_le_of_bounded hset h0 h1 hG hγ
  obtain ⟨a, b, hab, hp⟩ : ∃ a b, ¬(a = 0 ∧ b = 0) ∧ (State.comb a (s K) b (t K)).p = 0 := by
    by_cases h : (s K).p = 0
    · refine ⟨1, 0, fun hc => one_ne_zero hc.1, ?_⟩
      simp [State.comb, h]
    · refine ⟨(t K).p, -(s K).p, fun hc => h (neg_eq_zero.mp hc.2), ?_⟩
      simp only [State.comb]
      ring
  have hcomb := hs.comb ht a b
  have hbd : Bounded fun k => (State.comb a (s k) b (t k)).x := by
    obtain ⟨B, hB⟩ := bs
    obtain ⟨B', hB'⟩ := bt
    refine ⟨|a| * B + |b| * B', fun k => (abs_add_le _ _).trans ?_⟩
    rw [abs_mul, abs_mul]
    exact add_le_add (mul_le_mul_of_nonneg_left (hB k) (abs_nonneg a))
      (mul_le_mul_of_nonneg_left (hB' k) (abs_nonneg b))
  obtain ⟨hx, hy⟩ := hK _ hcomb hbd K le_rfl
  simp only [hp, abs_zero, mul_zero, abs_nonpos_iff] at hx hy
  exact ⟨a, b, hab, hcomb.eq_zero hgh (State.ext hx hy hp)⟩

/-- What is fed back determines whether the value is bounded. -/
theorem Trajectory.bounded_x (hs : Trajectory γ g h s) (hset : Settles G C g h)
    (h1 : γ ≤ 1 / 2) (hb : Bounded fun k => (s k).signal γ) : Bounded fun k => (s k).x := by
  obtain ⟨B, hB⟩ := hb
  have hB0 : 0 ≤ B := (abs_nonneg _).trans (hB 0)
  have hC := hset.nonneg
  have hp1 : ∀ k, C * (1 / 2 : ℝ) ^ k * |(s k).signal γ| ≤ C * B := by
    intro k
    have hk : (1 / 2 : ℝ) ^ k ≤ 1 := pow_le_one₀ (by norm_num) (by norm_num)
    exact mul_le_mul (mul_le_of_le_one_right hC hk) (hB k) (abs_nonneg _) hC
  have hp : ∀ k, |(s k).p| ≤ |(s 0).p| + 2 * (C * B) := by
    intro k
    induction k with
    | zero => linarith [mul_nonneg hC hB0]
    | succ k ih => linarith [hs.p_succ_le hset k, hp1 k, abs_nonneg (s 0).p]
  have hstep : ∀ k, |(s (k + 1)).x - (s k).x| ≤ |(s 0).p| + 3 * (C * B) + |G| * B := by
    intro k
    have hx : (s (k + 1)).x - (s k).x =
        ((s k).p + (g k - G) * (s k).signal γ) + G * (s k).signal γ := by
      rw [hs.x_succ (G := G) k, State.signal]
      ring
    have hG := mul_le_mul_of_nonneg_left (hB k) (abs_nonneg G)
    have hdev := hset.deviation_le (γ := γ) s k
    rw [hx]
    refine (abs_add_le _ _).trans ?_
    rw [abs_mul]
    linarith [hp k, hp1 k]
  -- the next signal is the difference of the values less (1 - γ) times the next one
  refine bounded_of_tail 1 ⟨2 * (B + (|(s 0).p| + 3 * (C * B) + |G| * B)), fun k => ?_⟩
  have hsig : (1 - γ) * (s (k + 1)).x = ((s (k + 1)).x - (s k).x) - (s (k + 1)).signal γ := by
    rw [State.signal, hs.y_succ]
    ring
  have habs := abs_sub ((s (k + 1)).x - (s k).x) ((s (k + 1)).signal γ)
  rw [← hsig, abs_mul, abs_of_pos (by linarith)] at habs
  have hhalf := mul_le_mul_of_nonneg_right (by linarith : 1 / 2 ≤ 1 - γ) (abs_nonneg (s (k + 1)).x)
  have hBk := hB (k + 1)
  have hsk := hstep k
  simp only at hBk ⊢
  linarith

end Laws

/-! ## Decay -/

theorem sq_lt_of_gain_lt {γ G : ℝ} (h0 : 0 ≤ γ) (h1 : γ ≤ 1 / 2) (hG0 : 0 < G) (hG1 : G < 1) :
    (1 + γ * G) ^ 2 < 1 + 2 * G := by
  have hγG : γ * G ≤ G / 2 := by
    have h := mul_le_mul_of_nonneg_right h1 hG0.le
    linarith
  nlinarith [mul_nonneg h0 hG0.le]

/-- A gain below 1 contracts the gauge of `gauge_next_le`. -/
theorem exists_gauge_next_le {γ G : ℝ} (h0 : 0 ≤ γ) (h1 : γ ≤ 1 / 2) (hG0 : 0 < G) (hG1 : G < 1)
    {ω : ℂ} (hre : ω.re = (1 + γ * G) / 2) (hsq : Complex.normSq ω = (1 + G) / 2) :
    ∃ q, 0 ≤ q ∧ q < 1 ∧ ∀ x y, gauge ω (x + G * (γ * x - y)) x ≤ q * gauge ω x y := by
  have hδ := sub_pos.mpr (sq_lt_of_gain_lt h0 h1 hG0 hG1)
  have ha0 : 0 ≤ 1 + γ * G := by positivity
  have ha2 : 1 + γ * G ≤ 2 := by nlinarith
  let m := min 1 (1 + 2 * G - (1 + γ * G) ^ 2)
  have hm0 : 0 < m := lt_min one_pos hδ
  have hm1 : m ≤ 1 := min_le_left _ _
  have hmδ : m ≤ 1 + 2 * G - (1 + γ * G) ^ 2 := min_le_right _ _
  -- the share of the squared gauge that a step takes away
  let c := (1 - G) / 2 * (m / 2)
  have hc0 : 0 < c := mul_pos (by linarith) (by linarith)
  have hc1 : c ≤ 1 := by
    have h := mul_le_mul (by linarith : (1 - G) / 2 ≤ 1) (by linarith : m / 2 ≤ 1) (by linarith)
      one_pos.le
    rwa [one_mul] at h
  have hdiff : ∀ x y, gauge ω x y ^ 2 - gauge ω (x + G * (γ * x - y)) x ^ 2 =
      (1 - G) / 2 * ((x - (1 + γ * G) * y) ^ 2 + (1 + 2 * G - (1 + γ * G) ^ 2) * y ^ 2) := by
    intro x y
    rw [gauge_sq, gauge_sq, hre, hsq]
    ring
  have hgauge : ∀ x y, gauge ω x y ^ 2 ≤ 2 * ((x - (1 + γ * G) * y) ^ 2 + y ^ 2) := by
    intro x y
    have hform : gauge ω x y ^ 2 = (x - (1 + γ * G) * y) ^ 2 +
        (1 + γ * G) * ((x - (1 + γ * G) * y) * y) + (1 + G) / 2 * y ^ 2 := by
      rw [gauge_sq, hre, hsq]
      ring
    have hprod : (x - (1 + γ * G) * y) * y ≤ ((x - (1 + γ * G) * y) ^ 2 + y ^ 2) / 2 := by
      linarith [sq_nonneg (x - (1 + γ * G) * y - y)]
    have h2 := mul_le_mul_of_nonneg_left hprod ha0
    have h3 := mul_le_mul_of_nonneg_right ha2
      (by positivity : 0 ≤ ((x - (1 + γ * G) * y) ^ 2 + y ^ 2) / 2)
    have h4 := mul_le_mul_of_nonneg_right (by linarith : (1 + G) / 2 ≤ 1) (sq_nonneg y)
    rw [hform]
    linarith
  refine ⟨√(1 - c), Real.sqrt_nonneg _, (Real.sqrt_lt' one_pos).mpr (by linarith), fun x y => ?_⟩
  have hle : gauge ω (x + G * (γ * x - y)) x ^ 2 ≤ (1 - c) * gauge ω x y ^ 2 := by
    have hy := mul_le_mul_of_nonneg_right hmδ (sq_nonneg y)
    have hx := mul_le_mul_of_nonneg_right hm1 (sq_nonneg (x - (1 + γ * G) * y))
    have hs := mul_le_mul_of_nonneg_left (hgauge x y) hm0.le
    have hform : m / 2 * gauge ω x y ^ 2 ≤
        (x - (1 + γ * G) * y) ^ 2 + (1 + 2 * G - (1 + γ * G) ^ 2) * y ^ 2 := by linarith
    have hshare := mul_le_mul_of_nonneg_left hform (by linarith : 0 ≤ (1 - G) / 2)
    have hd := hdiff x y
    simp only [c]
    linarith
  have hsq' : gauge ω (x + G * (γ * x - y)) x ^ 2 ≤ (√(1 - c) * gauge ω x y) ^ 2 := by
    rw [mul_pow, Real.sq_sqrt (by linarith)]
    exact hle
  exact le_of_sq_le_sq hsq' (mul_nonneg (Real.sqrt_nonneg _) (gauge_nonneg _ _ _))

/-- Geometric decay. -/
def Decays (u : ℕ → ℝ) : Prop := ∃ B ρ, 0 < ρ ∧ ρ < 1 ∧ ∀ k, |u k| ≤ B * ρ ^ k

theorem Decays.mono {u v : ℕ → ℝ} (hu : Decays u) {c : ℝ} (hc : 0 ≤ c) (h : ∀ k, |v k| ≤ c * |u k|) :
    Decays v := by
  obtain ⟨B, ρ, h0, h1, hB⟩ := hu
  refine ⟨c * B, ρ, h0, h1, fun k => (h k).trans ?_⟩
  rw [mul_assoc]
  exact mul_le_mul_of_nonneg_left (hB k) hc

/-- Decay is a matter of the tail. -/
theorem decays_of_tail {u : ℕ → ℝ} (n : ℕ) (h : Decays fun k => u (k + n)) : Decays u := by
  induction n with
  | zero => exact h
  | succ n ih =>
    obtain ⟨B, ρ, h0, h1, hB⟩ := h
    refine ih ⟨max (B / ρ) |u n|, ρ, h0, h1, fun k => ?_⟩
    cases k with
    | zero =>
      rw [pow_zero, mul_one]
      exact (congrArg (fun m => |u m|) (Nat.zero_add n)).le.trans (le_max_right _ _)
    | succ k =>
      have hk : k + (n + 1) = k + 1 + n := by omega
      have h := hB k
      simp only [hk] at h
      calc |u (k + 1 + n)| ≤ B * ρ ^ k := h
        _ = B / ρ * ρ ^ (k + 1) := by
          rw [pow_succ]
          field_simp
        _ ≤ max (B / ρ) |u n| * ρ ^ (k + 1) :=
          mul_le_mul_of_nonneg_right (le_max_left _ _) (by positivity)

/-- A factor that settles below 1 makes a sequence decay. -/
theorem decays_of_step {ρ M : ℝ} (h0 : 0 ≤ ρ) (h1 : ρ < 1) (hM : 0 ≤ M) {t : ℕ → ℝ}
    (ht : ∀ k, 0 ≤ t k) (hstep : ∀ k, t (k + 1) ≤ (ρ + M * (1 / 2) ^ k) * t k) : Decays t := by
  obtain ⟨K, hK⟩ := exists_mul_pow_le hM (by linarith : 0 < (1 - ρ) / 2)
  refine decays_of_tail K ⟨t K, (1 + ρ) / 2, by linarith, by linarith, fun k => ?_⟩
  rw [abs_of_nonneg (ht _)]
  induction k with
  | zero => rw [Nat.zero_add, pow_zero, mul_one]
  | succ k ih =>
    have hk := hK (k + K) (by omega)
    calc t (k + 1 + K) = t (k + K + 1) := congrArg t (by omega)
      _ ≤ (ρ + M * (1 / 2) ^ (k + K)) * t (k + K) := hstep _
      _ ≤ (1 + ρ) / 2 * t (k + K) := mul_le_mul_of_nonneg_right (by linarith) (ht _)
      _ ≤ (1 + ρ) / 2 * (t K * ((1 + ρ) / 2) ^ k) := mul_le_mul_of_nonneg_left ih (by linarith)
      _ = t K * ((1 + ρ) / 2) ^ (k + 1) := by ring

/-- With a settled gain below 1 every trajectory decays. -/
theorem Trajectory.decays {γ G C : ℝ} {g h : ℕ → ℝ} {s : ℕ → State}
    (hs : Trajectory γ g h s) (hset : Settles G C g h) (h0 : 0 ≤ γ) (h1 : γ ≤ 1 / 2)
    (hG0 : 0 < G) (hG1 : G < 1) :
    (Decays fun k => (s k).x) ∧ Decays fun k => (s k).signal γ := by
  have hC := hset.nonneg
  have hb := sq_lt_of_gain_lt h0 h1 hG0 hG1
  obtain ⟨ω, hre, hsq, him⟩ := exists_ratio (b := 1 + γ * G) (N := (1 + G) / 2) (by linarith)
  obtain ⟨L, hL, hc⟩ := exists_le_gauge him
  obtain ⟨q, hq0, hq1, hq⟩ := exists_gauge_next_le h0 h1 hG0 hG1 hre hsq
  let t : ℕ → ℝ := fun k => gauge ω (s k).x (s k).y + 4 * |(s k).p|
  have ht : ∀ k, 0 ≤ t k := fun k => add_nonneg (gauge_nonneg _ _ _) (by positivity)
  -- four times the dying input pays for what it adds to the gauge
  have hstep : ∀ k, t (k + 1) ≤ (max q (3 / 4) + 10 * L * C * (1 / 2) ^ k) * t k := by
    intro k
    have hg : gauge ω (s (k + 1)).x (s (k + 1)).y ≤ q * gauge ω (s k).x (s k).y +
        (|(s k).p| + C * (1 / 2) ^ k * |(s k).signal γ|) := by
      rw [hs.x_succ (G := G), hs.y_succ]
      exact (gauge_add_le _ _ _ _).trans (add_le_add (hq _ _) (hset.deviation_le s k))
    have hp := hs.p_succ_le hset k
    have hsig := hset.signal_le h0 h1 hc s k
    have hrest : 0 ≤ 10 * L * C * (1 / 2) ^ k * (4 * |(s k).p|) := by positivity
    have hqg := mul_le_mul_of_nonneg_right (le_max_left q (3 / 4)) (gauge_nonneg ω (s k).x (s k).y)
    have hqp := mul_le_mul_of_nonneg_right (le_max_right q (3 / 4)) (abs_nonneg (s k).p)
    simp only [t]
    linarith
  have hdec : Decays t := decays_of_step (by positivity) (max_lt hq1 (by norm_num)) (by positivity)
    ht hstep
  have hle : ∀ k, gauge ω (s k).x (s k).y ≤ |t k| := fun k =>
    (le_add_of_nonneg_right (by positivity)).trans (le_abs_self _)
  refine ⟨hdec.mono hL.le fun k => ?_, hdec.mono (by positivity : 0 ≤ 2 * L) fun k => ?_⟩
  · exact (hc _ _).1.trans (mul_le_mul_of_nonneg_left (hle k) hL.le)
  · exact (abs_signal_le h0 h1 hc _).trans (mul_le_mul_of_nonneg_left (hle k) (by positivity))

end BallController.Lib.Feedback
