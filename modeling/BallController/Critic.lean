import BallController.Axis
import BallController.Lib.Feedback

/-! The critic of one axis while the ball rests. The rates settle to the
activations `φ` of the resting position, so that what the critic learns from an
error comes back in the next error, by a gain that settles too. The value of the
critic is a feedback loop in the sense of the library. -/

namespace BallController
open Lib Lib.Feedback Spin1Math

namespace Axis

variable {ι : Type}

/-- The activations at ball position `p`. -/
def profile {α : Type} [Field α] [LinearOrder α] (center : ι → α) (p : α) (i : ι) : α :=
  activation |p - center i|

section Corr

variable [Fintype ι]

/-- The steps of a tick that concern the critic. -/
def critique {α : Type} [Field α] [LinearOrder α] (center : ι → α) (p reward : α) (a : Axis ι α) :
    Axis ι α :=
  ((a.fire center p).evaluate reward).learnCritic

/-- The mean product, of weights and rates for instance. -/
def corr {α : Type} [Field α] (u v : ι → α) : α := mean fun i => u i * v i

/-- The part of an error of the critic that comes back in the next one when the
rates have settled to `φ`: the learning rate, scaled as the value is, summed
over the traces. -/
def loopGain {α : Type} [Field α] (φ : ι → α) : α :=
  learningRateV * invDeltaTime / (1 - lambda * gamma) * corr φ φ

theorem corr_eq (u v : ι → ℝ) : corr u v = dotProduct u v / (Fintype.card ι : ℝ) := rfl

theorem corr_comm (u v : ι → ℝ) : corr u v = corr v u := by
  rw [corr_eq, corr_eq, dotProduct_comm]

@[simp] theorem corr_add_left (u v w : ι → ℝ) : corr (u + v) w = corr u w + corr v w := by
  rw [corr_eq, corr_eq, corr_eq, add_dotProduct, add_div]

@[simp] theorem corr_sub_left (u v w : ι → ℝ) : corr (u - v) w = corr u w - corr v w := by
  rw [corr_eq, corr_eq, corr_eq, sub_dotProduct, sub_div]

@[simp] theorem corr_smul_left (c : ℝ) (u v : ι → ℝ) : corr (c • u) v = c * corr u v := by
  rw [corr_eq, corr_eq, smul_dotProduct, smul_eq_mul, mul_div_assoc]

@[simp] theorem corr_add_right (u v w : ι → ℝ) : corr u (v + w) = corr u v + corr u w := by
  rw [corr_comm, corr_add_left, corr_comm v, corr_comm w]

@[simp] theorem corr_sub_right (u v w : ι → ℝ) : corr u (v - w) = corr u v - corr u w := by
  rw [corr_comm, corr_sub_left, corr_comm v, corr_comm w]

@[simp] theorem corr_smul_right (c : ℝ) (u v : ι → ℝ) : corr u (c • v) = c * corr u v := by
  rw [corr_comm, corr_smul_left, corr_comm]

@[simp] theorem corr_zero_left (u : ι → ℝ) : corr 0 u = 0 := by
  rw [corr_eq, zero_dotProduct, zero_div]

theorem corr_nonneg {u v : ι → ℝ} (hu : 0 ≤ u) (hv : 0 ≤ v) : 0 ≤ corr u v :=
  div_nonneg (dotProduct_nonneg_of_nonneg hu hv) (Nat.cast_nonneg _)

variable [Nonempty ι]

theorem abs_corr_le {u v : ι → ℝ} {C : ℝ} (h : ∀ i, |u i * v i| ≤ C) : |corr u v| ≤ C :=
  abs_mean_le h

theorem corr_self_eq_zero {u : ι → ℝ} (h : corr u u = 0) : u = 0 := by
  have hcard : (Fintype.card ι : ℝ) ≠ 0 := Nat.cast_ne_zero.mpr Fintype.card_ne_zero
  rw [corr_eq, div_eq_zero_iff] at h
  rcases h with h | h
  · exact dotProduct_self_eq_zero.mp h
  · exact absurd h hcard

end Corr

/-! ## Settling -/

namespace Resting

variable (φ ψ : ι → ℝ)

/-- The rates after tick `k`, which halve their distance to `φ` in every tick. -/
noncomputable def rate (k : ℕ) : ι → ℝ := φ + (1 - tauM : ℝ) ^ k • (ψ - φ)

noncomputable def trace : ℕ → ι → ℝ
  | 0 => rate φ ψ 0
  | k + 1 => (lambda * gamma : ℝ) • trace k + rate φ ψ (k + 1)

variable {φ ψ}

/-! The constants of the program, as fractions. -/

theorem rate_eq (k : ℕ) : rate φ ψ k = φ + (1 / 2 : ℝ) ^ k • (ψ - φ) := by
  rw [rate, show (1 - tauM : ℝ) = 1 / 2 by norm_num [tauM]]

theorem trace_succ (k : ℕ) :
    trace φ ψ (k + 1) = (1 / 100 : ℝ) • trace φ ψ k + rate φ ψ (k + 1) := by
  rw [trace, lambda_mul_gamma]

theorem rate_zero : rate φ ψ 0 = ψ := by
  rw [rate_eq, pow_zero, one_smul, add_sub_cancel]

theorem rate_succ_sub (k : ℕ) :
    rate φ ψ (k + 2) - rate φ ψ (k + 1) = (1 / 2 : ℝ) • (rate φ ψ (k + 1) - rate φ ψ k) := by
  funext i
  simp only [rate_eq, Pi.sub_apply, Pi.add_apply, Pi.smul_apply, smul_eq_mul, pow_succ]
  ring

theorem rate_succ (k : ℕ) (i : ι) : rate φ ψ (k + 1) i = (rate φ ψ k i + φ i) / 2 := by
  simp only [rate_eq, Pi.sub_apply, Pi.add_apply, Pi.smul_apply, smul_eq_mul, pow_succ]
  ring

/-- Activations and the rates of the first tick lie in the unit interval. -/
structure Unit (φ ψ : ι → ℝ) : Prop where
  target_nonneg : 0 ≤ φ
  target_le : φ ≤ 1
  first_nonneg : 0 ≤ ψ
  first_le : ψ ≤ 1

theorem Unit.rate_mem (h : Unit φ ψ) (k : ℕ) (i : ι) : 0 ≤ rate φ ψ k i ∧ rate φ ψ k i ≤ 1 := by
  induction k with
  | zero =>
    rw [rate_zero]
    exact ⟨h.first_nonneg i, h.first_le i⟩
  | succ k ih =>
    obtain ⟨h0, h1⟩ := ih
    have hφ0 : 0 ≤ φ i := h.target_nonneg i
    have hφ1 : φ i ≤ 1 := h.target_le i
    rw [rate_succ]
    constructor <;> linarith

theorem Unit.abs_rate_sub_le (h : Unit φ ψ) (k : ℕ) (i : ι) :
    |rate φ ψ k i - φ i| ≤ (1 / 2) ^ k := by
  have hφ0 : 0 ≤ φ i := h.target_nonneg i
  have hφ1 : φ i ≤ 1 := h.target_le i
  have hψ0 : 0 ≤ ψ i := h.first_nonneg i
  have hψ1 : ψ i ≤ 1 := h.first_le i
  have hsub : |ψ i - φ i| ≤ 1 := abs_le.mpr ⟨by linarith, by linarith⟩
  have hr : rate φ ψ k i - φ i = (1 / 2) ^ k * (ψ i - φ i) := by
    simp only [rate_eq, Pi.sub_apply, Pi.add_apply, Pi.smul_apply, smul_eq_mul]
    ring
  rw [hr, abs_mul, abs_of_pos (by positivity : (0 : ℝ) < (1 / 2) ^ k)]
  exact mul_le_of_le_one_right (by positivity) hsub

/-- The traces settle to the geometric series of the rates. -/
theorem Unit.abs_trace_sub_le (h : Unit φ ψ) (k : ℕ) (i : ι) :
    |trace φ ψ k i - 100 / 99 * φ i| ≤ 3 * (1 / 2) ^ k := by
  induction k with
  | zero =>
    obtain ⟨h0, h1⟩ := h.rate_mem 0 i
    have hφ0 : 0 ≤ φ i := h.target_nonneg i
    have hφ1 : φ i ≤ 1 := h.target_le i
    rw [trace, pow_zero]
    exact abs_le.mpr ⟨by linarith, by linarith⟩
  | succ k ih =>
    have hstep : trace φ ψ (k + 1) i - 100 / 99 * φ i =
        1 / 100 * (trace φ ψ k i - 100 / 99 * φ i) + (rate φ ψ (k + 1) i - φ i) := by
      simp only [trace_succ, Pi.add_apply, Pi.smul_apply, smul_eq_mul]
      ring
    have hr := h.abs_rate_sub_le (k + 1) i
    rw [hstep]
    refine (abs_add_le _ _).trans ?_
    rw [abs_mul, abs_of_pos (by norm_num : (0 : ℝ) < 1 / 100)]
    rw [pow_succ] at hr ⊢
    have hp : (0 : ℝ) < (1 / 2) ^ k := by positivity
    linarith

theorem Unit.trace_mem (h : Unit φ ψ) (k : ℕ) (i : ι) : 0 ≤ trace φ ψ k i ∧ trace φ ψ k i ≤ 2 := by
  induction k with
  | zero =>
    obtain ⟨h0, h1⟩ := h.rate_mem 0 i
    exact ⟨h0, by rw [trace]; linarith⟩
  | succ k ih =>
    obtain ⟨h0, h1⟩ := h.rate_mem (k + 1) i
    simp only [trace_succ, Pi.add_apply, Pi.smul_apply, smul_eq_mul]
    constructor <;> linarith

/-- A population that fires at the first tick never falls silent. -/
theorem Unit.rate_pos (h : Unit φ ψ) {i : ι} (hi : 0 < ψ i) (k : ℕ) : 0 < rate φ ψ k i := by
  induction k with
  | zero => rwa [rate_zero]
  | succ k ih =>
    have hφ0 : 0 ≤ φ i := h.target_nonneg i
    rw [rate_succ]
    linarith

theorem Unit.rate_le_trace (h : Unit φ ψ) (k : ℕ) (i : ι) : rate φ ψ k i ≤ trace φ ψ k i := by
  cases k with
  | zero => exact le_rfl
  | succ k =>
    have ht := (h.trace_mem k i).1
    simp only [trace_succ, Pi.add_apply, Pi.smul_apply, smul_eq_mul]
    linarith

variable [Fintype ι]

/-- What an error adds to the value by way of the weights it changes. -/
noncomputable def gain (φ ψ : ι → ℝ) (k : ℕ) : ℝ :=
  learningRateV * invDeltaTime * corr (trace φ ψ k) (rate φ ψ (k + 1))

noncomputable def leak (φ ψ : ι → ℝ) (k : ℕ) : ℝ :=
  learningRateV * invDeltaTime * corr (trace φ ψ k) (rate φ ψ (k + 2) - rate φ ψ (k + 1))

theorem gain_eq (k : ℕ) : gain φ ψ k = 5 * corr (trace φ ψ k) (rate φ ψ (k + 1)) := by
  rw [gain, show (learningRateV * invDeltaTime : ℝ) = 5 by
    norm_num [learningRateV, invDeltaTime, deltaTime]]

theorem leak_eq (k : ℕ) :
    leak φ ψ k = 5 * corr (trace φ ψ k) (rate φ ψ (k + 2) - rate φ ψ (k + 1)) := by
  rw [leak, show (learningRateV * invDeltaTime : ℝ) = 5 by
    norm_num [learningRateV, invDeltaTime, deltaTime]]

/-- The gain exceeds twice the leak by what a trace and its own rate have in common. -/
theorem gain_sub_leak (k : ℕ) : gain φ ψ k - 2 * leak φ ψ k = 5 * corr (trace φ ψ k) (rate φ ψ k) := by
  rw [gain_eq, leak_eq, rate_succ_sub]
  simp only [corr_sub_right, corr_smul_right]
  ring

variable [Nonempty ι]

/-- The gain settles to the loop gain of the resting position. -/
theorem Unit.settles (h : Unit φ ψ) : Settles (loopGain φ) 30 (gain φ ψ) (leak φ ψ) where
  gain k := by
    have hgain : (loopGain φ : ℝ) = 5 * corr ((100 / 99 : ℝ) • φ) φ := by
      rw [corr_smul_left]
      norm_num [loopGain, learningRateV, invDeltaTime, deltaTime, lambda, gamma]
      ring
    have hsplit : gain φ ψ k - loopGain φ = 5 * (corr (trace φ ψ k) (rate φ ψ (k + 1) - φ) +
        corr (trace φ ψ k - (100 / 99 : ℝ) • φ) φ) := by
      rw [hgain, gain_eq]
      simp only [corr_sub_left, corr_sub_right, corr_smul_left]
      ring
    have h1 : |corr (trace φ ψ k) (rate φ ψ (k + 1) - φ)| ≤ 2 * (1 / 2) ^ (k + 1) := by
      refine abs_corr_le fun i => ?_
      obtain ⟨ht0, ht1⟩ := h.trace_mem k i
      rw [abs_mul, abs_of_nonneg ht0]
      exact mul_le_mul ht1 (h.abs_rate_sub_le (k + 1) i) (abs_nonneg _) (by norm_num)
    have h2 : |corr (trace φ ψ k - (100 / 99 : ℝ) • φ) φ| ≤ 3 * (1 / 2) ^ k := by
      refine abs_corr_le fun i => ?_
      have hφ0 : 0 ≤ φ i := h.target_nonneg i
      rw [abs_mul, abs_of_nonneg hφ0]
      exact (mul_le_of_le_one_right (abs_nonneg _) (h.target_le i)).trans (h.abs_trace_sub_le k i)
    rw [hsplit, abs_mul, abs_of_pos (by norm_num : (0 : ℝ) < 5)]
    have h12 := abs_add_le (corr (trace φ ψ k) (rate φ ψ (k + 1) - φ))
      (corr (trace φ ψ k - (100 / 99 : ℝ) • φ) φ)
    rw [pow_succ] at h1
    have hp : (0 : ℝ) < (1 / 2) ^ k := by positivity
    linarith
  leak k := by
    have h1 : |corr (trace φ ψ k) (rate φ ψ (k + 2) - rate φ ψ (k + 1))| ≤ 2 * (1 / 2) ^ k := by
      refine abs_corr_le fun i => ?_
      obtain ⟨ht0, ht1⟩ := h.trace_mem k i
      have hr : (rate φ ψ (k + 2) - rate φ ψ (k + 1)) i = -(1 / 2 * (rate φ ψ (k + 1) i - φ i)) := by
        rw [Pi.sub_apply, rate_succ]
        ring
      have hk := h.abs_rate_sub_le (k + 1) i
      rw [pow_succ] at hk
      have hp : (0 : ℝ) < (1 / 2) ^ k := by positivity
      rw [hr, abs_mul, abs_neg, abs_mul, abs_of_nonneg ht0, abs_of_pos (by norm_num : (0 : ℝ) < 1 / 2)]
      exact mul_le_mul ht1 (by linarith) (by positivity) (by norm_num)
    rw [leak_eq, abs_mul, abs_of_pos (by norm_num : (0 : ℝ) < 5)]
    have hp : (0 : ℝ) < (1 / 2) ^ k := by positivity
    linarith

theorem Unit.gain_ne (h : Unit φ ψ) (hψ : ψ ≠ 0) (k : ℕ) : gain φ ψ k ≠ 2 * leak φ ψ k := by
  obtain ⟨i, hi⟩ : ∃ i, 0 < ψ i := by
    by_contra hc
    refine hψ (funext fun i => le_antisymm ?_ (h.first_nonneg i))
    exact not_lt.mp fun hi => hc ⟨i, hi⟩
  have hpos : 0 < corr (rate φ ψ k) (rate φ ψ k) := by
    refine lt_of_le_of_ne (corr_nonneg (fun i => (h.rate_mem k i).1) fun i => (h.rate_mem k i).1) ?_
    intro h0
    have hz := congrFun (corr_self_eq_zero h0.symm) i
    exact absurd (h.rate_pos hi k) (by rw [hz]; exact lt_irrefl _)
  have hle : 0 ≤ corr (trace φ ψ k - rate φ ψ k) (rate φ ψ k) :=
    corr_nonneg (fun i => sub_nonneg.mpr (h.rate_le_trace k i)) fun i => (h.rate_mem k i).1
  rw [corr_sub_left] at hle
  have hsub := gain_sub_leak (φ := φ) (ψ := ψ) k
  intro heq
  linarith

/-- The ball jumps from its initial position to the resting one. -/
def pos (p q : ℝ) : ℕ → ℝ
  | 0 => q
  | _ + 1 => p

end Resting

/-! ## The loop -/

/-- The rates of the first tick. -/
noncomputable def firstRates (center : ι → ℝ) (q : ℝ) : ι → ℝ := (tauM : ℝ) • profile center q

theorem firstRates_apply (center : ι → ℝ) (q : ℝ) (i : ι) :
    firstRates center q i = profile center q i / 2 := by
  rw [firstRates, Pi.smul_apply, smul_eq_mul, tauM_eq]
  ring

variable [Fintype ι]

/-- The critic part of the ticks `1, 2, …` with rewards `r`, for a ball that
starts at `q` and rests at `p`. -/
structure Rest (center : ι → ℝ) (p q : ℝ) (r : ℕ → ℝ) (a : ℕ → Axis ι ℝ) : Prop where
  rate : (a 0).rate = 0
  trace : (a 0).trace = 0
  oldValue : (a 0).oldValue = 0
  step : ∀ k, a (k + 1) = (a k).critique center (Resting.pos p q k) (r k)

/-- What one tick does to the critic. -/
theorem critique_spec (center : ι → ℝ) (p r : ℝ) (a : Axis ι ℝ) :
    let b := a.critique center p r
    (∀ i, b.rate i = (a.rate i + profile center p i) / 2) ∧
      b.trace = (1 / 100 : ℝ) • a.trace + b.rate ∧
      b.oldValue = 10 * corr a.critic b.rate ∧
      b.error = r + 1 / 100 * b.oldValue - a.oldValue ∧
      b.critic = a.critic + (b.error / 2) • b.trace := by
  intro b
  have htrace : b.trace = (1 / 100 : ℝ) • a.trace + b.rate := by
    funext i
    show lambda * gamma * a.trace i + b.rate i = _
    rw [lambda_mul_gamma]
    rfl
  refine ⟨fun i => ?_, htrace, ?_, ?_, ?_⟩
  · show a.rate i + (-a.rate i + profile center p i) * tauM = _
    rw [tauM_eq]
    ring
  · show invDeltaTime * corr a.critic b.rate = _
    rw [invDeltaTime_eq]
  · show r + gamma * b.oldValue - a.oldValue = _
    rw [gamma_eq]
  · funext i
    show a.critic i + learningRateV * b.error * b.trace i = _
    rw [learningRateV_eq, Pi.add_apply, Pi.smul_apply, smul_eq_mul]
    ring

namespace Rest

open Resting

variable {center : ι → ℝ} {p q : ℝ} {r : ℕ → ℝ} {a b : ℕ → Axis ι ℝ}

omit [Fintype ι] in
/-- The activations at rest and the rates of the first tick. -/
theorem unit (center : ι → ℝ) (p q : ℝ) :
    Resting.Unit (profile center p) (firstRates center q) where
  target_nonneg _ := activation_nonneg _
  target_le _ := activation_le_one _
  first_nonneg i := by
    have h : 0 ≤ profile center q i := activation_nonneg _
    rw [Pi.zero_apply, firstRates_apply]
    linarith
  first_le i := by
    have h : profile center q i ≤ 1 := activation_le_one _
    rw [Pi.one_apply, firstRates_apply]
    linarith

theorem rate_eq (h : Rest center p q r a) (k : ℕ) :
    (a (k + 1)).rate = Resting.rate (profile center p) (firstRates center q) k := by
  induction k with
  | zero =>
    funext i
    rw [h.step, (critique_spec _ _ _ _).1, h.rate, rate_zero, firstRates_apply, Pi.zero_apply,
      zero_add]
    rfl
  | succ k ih =>
    funext i
    rw [h.step, (critique_spec _ _ _ _).1, ih, rate_succ]
    rfl

theorem trace_eq (h : Rest center p q r a) (k : ℕ) :
    (a (k + 1)).trace = Resting.trace (profile center p) (firstRates center q) k := by
  induction k with
  | zero =>
    have hr := h.rate_eq 0
    rw [h.step] at hr ⊢
    rw [(critique_spec _ _ _ _).2.1, h.trace, smul_zero, zero_add, hr]
    rfl
  | succ k ih =>
    have hr := h.rate_eq (k + 1)
    rw [h.step] at hr ⊢
    rw [(critique_spec _ _ _ _).2.1, ih, hr, trace_succ]

/-- The value of the critic as a loop: what its weights make of the change of
the rates is the input that dies out. -/
noncomputable def loop (center : ι → ℝ) (p q : ℝ) (a : ℕ → Axis ι ℝ) (k : ℕ) : Feedback.State where
  x := (a (k + 1)).oldValue
  y := (a k).oldValue
  p := invDeltaTime * corr (a k).critic
    (Resting.rate (profile center p) (firstRates center q) (k + 1) -
      Resting.rate (profile center p) (firstRates center q) k)

theorem loop_p (center : ι → ℝ) (p q : ℝ) (a : ℕ → Axis ι ℝ) (k : ℕ) :
    (loop center p q a k).p = 10 * corr (a k).critic
      (Resting.rate (profile center p) (firstRates center q) (k + 1) -
        Resting.rate (profile center p) (firstRates center q) k) := by
  rw [loop, invDeltaTime_eq]

theorem error_eq (h : Rest center p q r a) (k : ℕ) :
    (a (k + 1)).error = r k + (loop center p q a k).signal (1 / 100) := by
  have he := (critique_spec center (pos p q k) (r k) (a k)).2.2.2.1
  rw [← h.step] at he
  rw [he, State.signal, loop]
  ring

theorem oldValue_eq (h : Rest center p q r a) (k : ℕ) : (a (k + 1)).oldValue =
    10 * corr (a k).critic (Resting.rate (profile center p) (firstRates center q) k) := by
  have ho := (critique_spec center (pos p q k) (r k) (a k)).2.2.1
  rwa [← h.step, h.rate_eq] at ho

theorem critic_eq (h : Rest center p q r a) (k : ℕ) : (a (k + 1)).critic = (a k).critic +
    ((a (k + 1)).error / 2) •
      Resting.trace (profile center p) (firstRates center q) k := by
  have hc := (critique_spec center (pos p q k) (r k) (a k)).2.2.2.2
  rwa [← h.step, h.trace_eq] at hc

theorem loop_succ (h : Rest center p q r a) (k : ℕ) :
    let φ := profile center p
    let ψ := firstRates center q
    let s := loop center p q a k
    loop center p q a (k + 1) = ⟨s.x + s.p + gain φ ψ k * (a (k + 1)).error, s.x,
      s.p / 2 + leak φ ψ k * (a (k + 1)).error⟩ := by
  intro φ ψ s
  refine Feedback.State.ext ?_ rfl ?_
  · have hx : s.x = 10 * corr (a k).critic (Resting.rate φ ψ k) := h.oldValue_eq k
    show (a (k + 2)).oldValue = s.x + s.p + _
    rw [h.oldValue_eq (k + 1), h.critic_eq k, loop_p, hx, gain_eq]
    simp only [corr_add_left, corr_smul_left, corr_sub_right]
    ring
  · show (loop center p q a (k + 1)).p = s.p / 2 + _
    rw [loop_p, loop_p, h.critic_eq k, leak_eq, corr_add_left, corr_smul_left, rate_succ_sub]
    simp only [corr_smul_right]
    ring

/-- With a loop gain of 1 at most, and a reward that becomes constant, the
errors are bounded. -/
theorem bounded [Nonempty ι] (h : Rest center p q r a) {n : ℕ} {R : ℝ} (hr : ∀ k ≥ n, r k = R)
    (hG : loopGain (profile center p) ≤ 1) : Bounded fun k => (a k).error := by
  let φ := profile center p
  let ψ := firstRates center q
  -- the value that a constant reward leaves unchanged
  let c : ℝ := 100 / 99 * R
  let s : ℕ → Feedback.State := fun k =>
    ⟨(loop center p q a (k + n)).x - c, (loop center p q a (k + n)).y - c,
      (loop center p q a (k + n)).p⟩
  have hsig : ∀ k, (s k).signal (1 / 100) = (a (k + n + 1)).error := by
    intro k
    rw [h.error_eq, hr _ (by omega)]
    simp only [s, c, State.signal]
    ring
  have hs : Trajectory (1 / 100) (fun k => gain φ ψ (k + n)) (fun k => leak φ ψ (k + n)) s := by
    intro k
    rw [State.next, hsig]
    have hk : k + 1 + n = k + n + 1 := by omega
    have hl := h.loop_succ (k + n)
    refine Feedback.State.ext ?_ ?_ ?_
    · simp only [s, hk, hl]
      ring
    · simp only [s, hk, hl]
    · simp only [s, hk, hl]
      rfl
  have hG0 : 0 ≤ loopGain φ := by
    have hc : 0 ≤ corr φ φ := corr_nonneg (unit center p q).target_nonneg (unit center p q).target_nonneg
    refine mul_nonneg ?_ hc
    norm_num [learningRateV, invDeltaTime, deltaTime, lambda, gamma]
  obtain ⟨B, hB⟩ := hs.bounded ((unit center p q).settles.shift n) (by norm_num) (by norm_num) hG0 hG
  refine bounded_of_tail (n + 1) ⟨B, fun k => ?_⟩
  have hk := hB k
  simp only [hsig] at hk
  exact hk

/-! ## Convergence -/

/-- The loop from tick `n` on, as the deviation from the value `v`. -/
noncomputable def deviation (center : ι → ℝ) (p q : ℝ) (a : ℕ → Axis ι ℝ) (n : ℕ) (v : ℝ) (k : ℕ) :
    Feedback.State :=
  ⟨(loop center p q a (k + n)).x - v, (loop center p q a (k + n)).y - v,
    (loop center p q a (k + n)).p⟩

/-- A constant reward `R` leaves the value `100 / 99 * R` unchanged. -/
theorem deviation_signal (h : Rest center p q r a) {n : ℕ} {R : ℝ} (hr : ∀ k ≥ n, r k = R) (k : ℕ) :
    (deviation center p q a n (100 / 99 * R) k).signal (1 / 100) = (a (k + n + 1)).error := by
  rw [h.error_eq, hr _ (by omega)]
  simp only [deviation, State.signal]
  ring

theorem deviation_trajectory (h : Rest center p q r a) {n : ℕ} {R : ℝ} (hr : ∀ k ≥ n, r k = R) :
    Trajectory (1 / 100) (fun k => gain (profile center p) (firstRates center q) (k + n))
      (fun k => leak (profile center p) (firstRates center q) (k + n))
      (deviation center p q a n (100 / 99 * R)) := by
  intro k
  have hk : k + 1 + n = k + n + 1 := by omega
  have hl := h.loop_succ (k + n)
  rw [State.next, h.deviation_signal hr]
  refine Feedback.State.ext ?_ ?_ ?_
  · simp only [deviation, hk, hl]
    ring
  · simp only [deviation, hk, hl]
  · simp only [deviation, hk, hl]

/-- With a loop gain below 1, and a reward that becomes constant, the errors die
out and the value settles. -/
theorem decays [Nonempty ι] (h : Rest center p q r a) {n : ℕ} {R : ℝ} (hr : ∀ k ≥ n, r k = R)
    (hG0 : 0 < loopGain (profile center p)) (hG1 : loopGain (profile center p) < 1) :
    (Decays fun k => (a k).error) ∧ Decays fun k => (a k).oldValue - 100 / 99 * R := by
  obtain ⟨hx, hsig⟩ := (h.deviation_trajectory hr).decays ((unit center p q).settles.shift n)
    (by norm_num) (by norm_num) hG0 hG1
  simp only [h.deviation_signal hr] at hsig
  exact ⟨decays_of_tail (n + 1) hsig, decays_of_tail (n + 1) hx⟩

/-! ## Instability -/

/-- How two runs with the same rewards differ. -/
noncomputable def diff (center : ι → ℝ) (p q : ℝ) (a b : ℕ → Axis ι ℝ) (k : ℕ) : Feedback.State :=
  State.comb 1 (loop center p q a k) (-1) (loop center p q b k)

theorem diff_signal (ha : Rest center p q r a) (hb : Rest center p q r b) (k : ℕ) :
    (diff center p q a b k).signal (1 / 100) = (a (k + 1)).error - (b (k + 1)).error := by
  rw [ha.error_eq, hb.error_eq]
  simp only [diff, State.comb, State.signal]
  ring

theorem diff_trajectory (ha : Rest center p q r a) (hb : Rest center p q r b) :
    Trajectory (1 / 100) (gain (profile center p) (firstRates center q))
      (leak (profile center p) (firstRates center q)) (diff center p q a b) := by
  intro k
  have hla := ha.loop_succ k
  have hlb := hb.loop_succ k
  have hsig := diff_signal ha hb k
  simp only [State.next, hsig]
  refine Feedback.State.ext ?_ ?_ ?_
  · simp only [diff, State.comb, hla, hlb]
    ring
  · simp only [diff, State.comb, hla, hlb]
  · simp only [diff, State.comb, hla, hlb]
    ring

/-- If the errors of both runs are bounded, so is the difference of the values. -/
theorem diff_bounded [Nonempty ι] (ha : Rest center p q r a) (hb : Rest center p q r b)
    (hBa : Bounded fun k => (a k).error) (hBb : Bounded fun k => (b k).error) :
    Bounded fun k => (diff center p q a b k).x := by
  refine (diff_trajectory ha hb).bounded_x (unit center p q).settles (by norm_num) ?_
  obtain ⟨A, hA⟩ := hBa
  obtain ⟨B, hB⟩ := hBb
  refine ⟨A + B, fun k => ?_⟩
  show |(diff center p q a b k).signal (1 / 100)| ≤ A + B
  rw [diff_signal ha hb]
  exact (abs_sub _ _).trans (add_le_add (hA (k + 1)) (hB (k + 1)))

/-- The difference after the first tick, by the difference of the weights. -/
theorem diff_zero (ha : Rest center p q r a) (hb : Rest center p q r b) {w : ι → ℝ}
    (hw : (a 0).critic - (b 0).critic = w) :
    let φ := profile center p
    let ψ := firstRates center q
    diff center p q a b 0 = ⟨10 * corr w ψ, 0, 5 * (corr w φ - corr w ψ)⟩ := by
  intro φ ψ
  have hr : Resting.rate φ ψ 1 - Resting.rate φ ψ 0 = (1 / 2 : ℝ) • (φ - ψ) := by
    funext i
    simp only [Resting.rate_eq, Pi.sub_apply, Pi.add_apply, Pi.smul_apply, smul_eq_mul, pow_zero, pow_one]
    ring
  rw [← hw]
  refine Feedback.State.ext ?_ ?_ ?_
  · show 1 * (a 1).oldValue + -1 * (b 1).oldValue = _
    rw [ha.oldValue_eq, hb.oldValue_eq, rate_zero, corr_sub_left]
    ring
  · show 1 * (a 0).oldValue + -1 * (b 0).oldValue = _
    rw [ha.oldValue, hb.oldValue]
    ring
  · show 1 * (loop center p q a 0).p + -1 * (loop center p q b 0).p = _
    rw [loop_p, loop_p, hr]
    simp only [corr_smul_right, corr_sub_right, corr_sub_left]
    ring

/-- Where the first rates are proportional to the activations at rest, the input
that dies out is a small part of the value. -/
theorem diff_p_of_smul (ha : Rest center p q r a) (hb : Rest center p q r b) {c : ℝ}
    (hc : firstRates center q = c • profile center p) (k : ℕ) :
    (1 + (1 / 2) ^ k * (c - 1)) * (diff center p q a b k).p =
      (1 / 2) ^ (k + 1) * (1 - c) * (diff center p q a b k).x := by
  let φ := profile center p
  have hrate : ∀ k, Resting.rate φ (c • φ) k = (1 + (1 / 2 : ℝ) ^ k * (c - 1)) • φ := by
    intro k
    funext i
    simp only [Resting.rate_eq, Pi.sub_apply, Pi.add_apply, Pi.smul_apply, smul_eq_mul]
    ring
  have h : ∀ {a}, Rest center p q r a → (1 + (1 / 2) ^ k * (c - 1)) * (loop center p q a k).p =
      (1 / 2) ^ (k + 1) * (1 - c) * (loop center p q a k).x := by
    intro a ha
    have hx : (loop center p q a k).x = _ := ha.oldValue_eq k
    rw [hx, loop_p, hc, hrate, hrate]
    simp only [corr_sub_right, corr_smul_right, pow_succ]
    ring
  simp only [diff, State.comb]
  linear_combination h ha - h hb

/-- A part that is small against what it bounds vanishes. -/
theorem eq_zero_of_small {x p c ε L : ℝ} (hε : 0 ≤ ε) (hL : |x| ≤ L * |p|)
    (h : (1 + ε * (c - 1)) * p = ε / 2 * (1 - c) * x) (hm : ε * |c - 1| * (|L| + 1) < 1 / 2) :
    p = 0 := by
  have hm0 : 0 ≤ ε * |c - 1| := mul_nonneg hε (abs_nonneg _)
  have hx : |x| ≤ |L| * |p| := hL.trans (mul_le_mul_of_nonneg_right (le_abs_self L) (abs_nonneg p))
  have hleft : (1 - ε * |c - 1|) * |p| ≤ |(1 + ε * (c - 1)) * p| := by
    rw [abs_mul]
    refine mul_le_mul_of_nonneg_right ?_ (abs_nonneg p)
    have h1 := abs_sub_abs_le_abs_sub 1 (-(ε * (c - 1)))
    rw [abs_neg, abs_mul, abs_of_nonneg hε, abs_one, sub_neg_eq_add] at h1
    exact h1
  have hright : |ε / 2 * (1 - c) * x| ≤ ε * |c - 1| * (|L| * |p|) := by
    rw [abs_mul, abs_mul, abs_sub_comm 1 c, abs_of_nonneg (by linarith : 0 ≤ ε / 2)]
    have h2 := mul_le_mul_of_nonneg_left hx hm0
    have h3 : 0 ≤ ε * |c - 1| * |x| := mul_nonneg hm0 (abs_nonneg x)
    linarith
  rw [h] at hleft
  have hprod : (1 - ε * |c - 1| * (|L| + 1)) * |p| ≤ 0 := by linarith
  have habs : |p| ≤ 0 := by
    by_contra hp
    have := mul_pos (by linarith : 0 < 1 - ε * |c - 1| * (|L| + 1)) (not_le.mp hp)
    linarith
  exact abs_nonpos_iff.mp habs

variable [Nonempty ι]

/-- Weights whose effect cancels in the value and in the input that dies out
cancel themselves. -/
theorem dependent_of_comb {φ ψ : ι → ℝ} {η α β : ℝ} (hη : η ≠ 0)
    (h : State.comb α ⟨10 * corr (η • φ) ψ, 0, 5 * (corr (η • φ) φ - corr (η • φ) ψ)⟩
      β ⟨10 * corr (η • ψ) ψ, 0, 5 * (corr (η • ψ) φ - corr (η • ψ) ψ)⟩ = State.zero) :
    α • φ + β • ψ = 0 := by
  obtain ⟨hx, _, hp⟩ := State.mk.inj h
  simp only [corr_smul_left] at hx hp
  have h1 : corr (α • φ + β • ψ) ψ = 0 := by
    rw [corr_add_left, corr_smul_left, corr_smul_left]
    refine mul_left_cancel₀ (mul_ne_zero (by norm_num : (10 : ℝ) ≠ 0) hη) ?_
    linear_combination hx
  have h2 : corr (α • φ + β • ψ) φ = 0 := by
    rw [corr_add_left, corr_smul_left, corr_smul_left]
    refine mul_left_cancel₀ (mul_ne_zero (by norm_num : (10 : ℝ) ≠ 0) hη) ?_
    linear_combination 2 * hp + hx
  refine corr_self_eq_zero ?_
  rw [corr_add_right, corr_smul_right, corr_smul_right, h1, h2]
  ring

theorem loopGain_le (center : ι → ℝ) (p : ℝ) : loopGain (profile center p) ≤ 6 := by
  have hc : |corr (profile center p) (profile center p)| ≤ 1 := by
    refine abs_corr_le fun i => ?_
    have h0 : 0 ≤ profile center p i := activation_nonneg _
    have h1 : profile center p i ≤ 1 := activation_le_one _
    rw [abs_mul, abs_of_nonneg h0]
    exact mul_le_one₀ h1 h0 h1
  have hk : (learningRateV * invDeltaTime / (1 - lambda * gamma) : ℝ) ≤ 6 := by
    norm_num [learningRateV, invDeltaTime, deltaTime, lambda, gamma]
  have hk0 : (0 : ℝ) ≤ learningRateV * invDeltaTime / (1 - lambda * gamma) := by
    norm_num [learningRateV, invDeltaTime, deltaTime, lambda, gamma]
  have h := mul_le_mul_of_nonneg_left (abs_le.mp hc).2 hk0
  rw [loopGain]
  linarith

omit [Fintype ι] [Nonempty ι] in
theorem exists_smul_of_dependent {φ ψ : ι → ℝ} {α β : ℝ} (hφ : φ ≠ 0) (hαβ : ¬(α = 0 ∧ β = 0))
    (hdep : α • φ + β • ψ = 0) : ∃ c : ℝ, ψ = c • φ := by
  have hβ : β ≠ 0 := by
    intro h0
    rw [h0, zero_smul, add_zero] at hdep
    rcases smul_eq_zero.mp hdep with h | h
    · exact hαβ ⟨h, h0⟩
    · exact hφ h
  refine ⟨-(α / β), funext fun i => ?_⟩
  have hi := congrFun hdep i
  simp only [Pi.add_apply, Pi.smul_apply, smul_eq_mul, Pi.zero_apply] at hi ⊢
  field_simp
  linear_combination hi

omit [Nonempty ι] in
/-- When the first rates are proportional to the activations at rest, a
difference that follows the dying input vanishes in the end. -/
theorem exists_diff_zero {a b : ℕ → Axis ι ℝ} (ha : Rest center p q r a) (hb : Rest center p q r b)
    {c : ℝ} (hc : firstRates center q = c • profile center p) {K : ℕ} {L : ℝ}
    (hd : ∀ k ≥ K, |(diff center p q a b k).x| ≤ L * |(diff center p q a b k).p| ∧
      |(diff center p q a b k).y| ≤ L * |(diff center p q a b k).p|) :
    ∃ k, diff center p q a b k = State.zero := by
  obtain ⟨n, hn⟩ := exists_mul_pow_le (by positivity : 0 ≤ |c - 1| * (|L| + 1))
    (by norm_num : (0 : ℝ) < 1 / 4)
  have hp : (diff center p q a b (K + n)).p = 0 := by
    have hrel := diff_p_of_smul ha hb hc (K + n)
    have hε : (0 : ℝ) ≤ (1 / 2) ^ (K + n) := by positivity
    refine eq_zero_of_small hε (hd (K + n) (by omega)).1 (c := c) ?_ ?_
    · rw [hrel, pow_succ]
      ring
    · have hle := hn (K + n) (by omega)
      linarith
  obtain ⟨hx, hy⟩ := hd (K + n) (by omega)
  simp only [hp, abs_zero, mul_zero, abs_nonpos_iff] at hx hy
  exact ⟨K + n, State.ext hx hy hp⟩

/-- With a loop gain above 1, three runs cannot all have bounded errors: those
that start from no weights, from weights along the activations at rest and from
weights along the first rates. -/
theorem not_bounded {a₀ a₁ a₂ : ℕ → Axis ι ℝ} (h₀ : Rest center p q r a₀) (h₁ : Rest center p q r a₁)
    (h₂ : Rest center p q r a₂) (hG : 1 < loopGain (profile center p)) (hq : profile center q ≠ 0)
    {η : ℝ} (hη : η ≠ 0) (w₁ : (a₁ 0).critic - (a₀ 0).critic = η • profile center p)
    (w₂ : (a₂ 0).critic - (a₀ 0).critic = η • (firstRates center q)) :
    ¬((Bounded fun k => (a₀ k).error) ∧ (Bounded fun k => (a₁ k).error) ∧
      Bounded fun k => (a₂ k).error) := by
  rintro ⟨b₀, b₁, b₂⟩
  have hset := (unit center p q).settles
  have hψ : firstRates center q ≠ 0 := smul_ne_zero (by norm_num [tauM]) hq
  have hφ : profile center p ≠ 0 := by
    intro h0
    have hz : loopGain (profile center p) = 0 := by rw [loopGain, h0, corr_zero_left, mul_zero]
    linarith
  have hne := (unit center p q).gain_ne hψ
  have hG4 : (1 + 1 / 100 * loopGain (profile center p)) ^ 2 < 4 * loopGain (profile center p) := by
    have h6 := loopGain_le center p
    nlinarith
  obtain ⟨α, β, hαβ, hcomb⟩ := exists_comb_eq_zero hset (by norm_num) (by norm_num) hG hG4 hne
    (diff_trajectory h₁ h₀) (diff_trajectory h₂ h₀) (diff_bounded h₁ h₀ b₁ b₀) (diff_bounded h₂ h₀ b₂ b₀)
  rw [diff_zero h₁ h₀ w₁, diff_zero h₂ h₀ w₂] at hcomb
  obtain ⟨c, hc⟩ := exists_smul_of_dependent hφ hαβ (dependent_of_comb hη hcomb)
  obtain ⟨K, L, hK⟩ := exists_le_of_bounded hset (by norm_num) (by norm_num) hG hG4
  obtain ⟨k, hk⟩ := exists_diff_zero h₁ h₀ hc
    (hK _ (diff_trajectory h₁ h₀) (diff_bounded h₁ h₀ b₁ b₀))
  -- the weights along the activations at rest would have no effect at all
  have hzero := (diff_trajectory h₁ h₀).eq_zero hne hk
  rw [diff_zero h₁ h₀ w₁] at hzero
  obtain ⟨hx0, _, hp0⟩ := State.mk.inj hzero
  simp only [corr_smul_left] at hx0 hp0
  refine hφ (corr_self_eq_zero (mul_left_cancel₀ hη ?_))
  linear_combination hp0 / 5 + hx0 / 10

omit [Fintype ι] [Nonempty ι] in
/-- A part of the activations, or of the first rates, is a small weight. -/
theorem abs_smul_le {η : ℝ} (hη : 0 ≤ η) {u : ι → ℝ} (h0 : 0 ≤ u) (h1 : u ≤ 1) (i : ι) :
    |(η • u) i| ≤ η := by
  have hu0 : 0 ≤ u i := h0 i
  rw [Pi.smul_apply, smul_eq_mul, abs_of_nonneg (mul_nonneg hη hu0)]
  exact mul_le_of_le_one_right hη (h1 i)

/-- If the errors are bounded from all small initial weights, the loop gain is 1
at most. -/
theorem loopGain_le_of_bounded {a : (ι → ℝ) → ℕ → Axis ι ℝ} (h : ∀ w, Rest center p q r (a w))
    (hc : ∀ w, (a w 0).critic = w) (hq : profile center q ≠ 0) {η : ℝ} (hη : 0 < η)
    (hb : ∀ w, (∀ i, |w i| ≤ η) → Bounded fun k => (a w k).error) :
    loopGain (profile center p) ≤ 1 := by
  by_contra hG
  obtain ⟨hφ0, hφ1, hψ0, hψ1⟩ := unit center p q
  refine not_bounded (h 0) (h (η • profile center p)) (h (η • (firstRates center q)))
    (not_le.mp hG) hq hη.ne' ?_ ?_ ⟨hb _ fun i => ?_, hb _ (abs_smul_le hη.le hφ0 hφ1),
      hb _ (abs_smul_le hη.le hψ0 hψ1)⟩
  · rw [hc, hc, sub_zero]
  · rw [hc, hc, sub_zero]
  · rw [Pi.zero_apply, abs_zero]
    exact hη.le

end Rest

end Axis

end BallController
