import BallController.Ball
import BallController.Population

/-! The actor-critic learner of one axis, as the design document describes it:
a population code `rate`, a critic and an actor linear in it, a TD error and
eligibility traces. Populations are indexed by any finite type. The arrays of
the sequential program and the slaves of the parallel one are both instances. -/

namespace BallController
open Spin1Math

@[ext]
structure Axis (ι : Type) (α : Type) where
  rate : ι → α
  trace : ι → α
  critic : ι → α
  actor : ι → α
  oldValue : α
  error : α

namespace Axis

variable {ι : Type} [Fintype ι] {α : Type} [Field α] [LinearOrder α]

def mean (f : ι → α) : α := (∑ i, f i) / (Fintype.card ι : α)

/-- `V(x)`. -/
def value (a : Axis ι α) : α := mean fun i => a.critic i * a.rate i

/-- `A(x)`. -/
def action (a : Axis ι α) : α := mean fun i => a.actor i * a.rate i

/-- `A(x) + σ n`. -/
def output (n : α) (a : Axis ι α) : α := a.action + sigmaOf a.oldValue * n

/-- The rates move half way to the activations at ball position `p`. -/
def fire (center : ι → α) (p : α) (a : Axis ι α) : Axis ι α :=
  { a with rate := fun i => a.rate i + (-a.rate i + activation |p - center i|) * tauM }

/-- `δ = R + γ V - V_old`. -/
def evaluate (reward : α) (a : Axis ι α) : Axis ι α :=
  { a with
    error := reward + gamma * (invDeltaTime * a.value) - a.oldValue
    oldValue := invDeltaTime * a.value }

def newTrace (a : Axis ι α) (i : ι) : α := lambda * gamma * a.trace i + a.rate i

/-- `e ← λ γ e + φ` and `w ← w + η δ e`. -/
def learnCritic (a : Axis ι α) : Axis ι α :=
  { a with
    trace := a.newTrace
    critic := fun i => a.critic i + learningRateV * a.error * a.newTrace i }

/-- `w ← w - η δ n φ`, the sign being that of the code. -/
def learnActor (n : α) (a : Axis ι α) : Axis ι α :=
  { a with actor := fun i => a.actor i - learningRateA * a.error * n * a.rate i }

/-- One step of the learner: it values what it fired last, then fires at the new
position `p` and learns with the noise `n` that goes with the command. -/
def step (center : ι → α) (reward p n : α) (a : Axis ι α) : Axis ι α :=
  (((a.evaluate reward).fire center p).learnActor n).learnCritic

omit [LinearOrder α] in
theorem sum_div_eq_mean {N : Nat} (f : Fin N → α) : (∑ i, f i) / (N : α) = mean f := by
  rw [mean, Fintype.card_fin]

theorem abs_mean_le [Nonempty ι] {f : ι → ℝ} {c : ℝ} (h : ∀ i, |f i| ≤ c) : |mean f| ≤ c := by
  have hcard : (0 : ℝ) < (Fintype.card ι : ℝ) := Nat.cast_pos.mpr Fintype.card_pos
  rw [mean, abs_div, abs_of_pos hcard, div_le_iff₀ hcard]
  calc |∑ i, f i| ≤ ∑ i, |f i| := Finset.abs_sum_le_sum_abs _ _
    _ ≤ ∑ _i : ι, c := Finset.sum_le_sum fun i _ => h i
    _ = c * (Fintype.card ι : ℝ) := by rw [Finset.sum_const, Finset.card_univ, nsmul_eq_mul, mul_comm]

end Axis

end BallController
