import BallController.Axis
import BallController.Parallel.Slave

/-! How far a slave can learn. Each of its two axes is a learner with one
population, which fires and learns when it is told an error. Rates and traces
stay within fixed bounds; a weight moves by a bounded amount for each message. -/

namespace BallController
open Spin1Math

namespace Axis

section Learn

variable {ι : Type} {α : Type} [Field α] [LinearOrder α]

/-- A step of the learner for a given error: fire at the position `p`, then
learn with the noise `n`. -/
def learn (center : ι → α) (error p n : α) (a : Axis ι α) : Axis ι α :=
  (({ a with error := error }.fire center p).learnActor n).learnCritic

/-- Rates and traces in their ranges, weights up to `w`. -/
structure Budget (w : α) (a : Axis ι α) : Prop where
  rate : ∀ i, 0 ≤ a.rate i ∧ a.rate i ≤ 1
  trace : ∀ i, 0 ≤ a.trace i ∧ a.trace i ≤ 100 / 99
  critic : ∀ i, |a.critic i| ≤ w
  actor : ∀ i, |a.actor i| ≤ w

/-- The state after `m` steps from `a₀` with errors and noise in the unit
interval. -/
structure Bounded (a₀ : Axis ι α) (m : Nat) (a : Axis ι α) : Prop where
  rate : ∀ i, 0 ≤ a.rate i ∧ a.rate i ≤ 1
  trace : ∀ i, 0 ≤ a.trace i ∧ a.trace i ≤ 100 / 99
  error : |a.error| ≤ 1
  critic : ∀ i, |a.critic i - a₀.critic i| ≤ 50 / 99 * m
  actor : ∀ i, |a.actor i - a₀.actor i| ≤ m / 2

variable [IsStrictOrderedRing α] {center : ι → α} {error p n : α} {a a₀ : Axis ι α} {m : Nat}

theorem learn_rate_mem (ha : ∀ i, 0 ≤ a.rate i ∧ a.rate i ≤ 1) (i : ι) :
    0 ≤ (a.learn center error p n).rate i ∧ (a.learn center error p n).rate i ≤ 1 :=
  rate_step_mem (ha i) |p - center i|

/-- The trace is that of the firing rate, decayed by `λ γ = 1/100`. -/
theorem learn_trace (i : ι) : (a.learn center error p n).trace i =
    a.trace i / 100 + (a.learn center error p n).rate i := by
  show lambda * gamma * a.trace i + (a.learn center error p n).rate i = _
  rw [lambda_mul_gamma]
  ring

theorem learn_critic (i : ι) : (a.learn center error p n).critic i =
    a.critic i + 1 / 2 * error * (a.learn center error p n).trace i := by
  rw [← learningRateV_eq]
  rfl

theorem learn_actor (i : ι) : (a.learn center error p n).actor i =
    a.actor i - 1 / 2 * error * n * (a.learn center error p n).rate i := by
  rw [← learningRateA_eq]
  rfl

/-- The trace of rates in the unit interval, decayed by 1/100 a step, stays
below their geometric sum. -/
theorem learn_trace_mem (hr : ∀ i, 0 ≤ a.rate i ∧ a.rate i ≤ 1)
    (ht : ∀ i, 0 ≤ a.trace i ∧ a.trace i ≤ 100 / 99) (i : ι) :
    0 ≤ (a.learn center error p n).trace i ∧ (a.learn center error p n).trace i ≤ 100 / 99 := by
  obtain ⟨hr0, hr1⟩ : 0 ≤ (a.learn center error p n).rate i ∧
      (a.learn center error p n).rate i ≤ 1 := learn_rate_mem hr i
  obtain ⟨ht0, ht1⟩ := ht i
  rw [learn_trace]
  constructor <;> linarith

/-- What one step can do to the weights. -/
theorem abs_learn_critic_sub_le {d b : α} {i : ι} (he : |error| ≤ d)
    (hb : |(a.learn center error p n).trace i| ≤ b) :
    |(a.learn center error p n).critic i - a.critic i| ≤ d * b / 2 := by
  have hprod : |error| * |(a.learn center error p n).trace i| ≤ d * b :=
    mul_le_mul he hb (abs_nonneg _) ((abs_nonneg _).trans he)
  rw [learn_critic, add_sub_cancel_left, mul_assoc, abs_mul, abs_mul, abs_of_pos (by norm_num)]
  linarith

theorem abs_learn_actor_sub_le {d b : α} {i : ι} (he : |error| ≤ d) (hn : |n| ≤ 1)
    (hb : |(a.learn center error p n).rate i| ≤ b) :
    |(a.learn center error p n).actor i - a.actor i| ≤ d * b / 2 := by
  have hd : 0 ≤ d := (abs_nonneg _).trans he
  have h1 : |error| * |n| ≤ d * 1 := mul_le_mul he hn (abs_nonneg _) hd
  have h2 : |error| * |n| * |(a.learn center error p n).rate i| ≤ d * 1 * b :=
    mul_le_mul h1 hb (abs_nonneg _) (mul_nonneg hd zero_le_one)
  rw [learn_actor, sub_sub_cancel_left, abs_neg, mul_assoc, mul_assoc, abs_mul, abs_mul, abs_mul,
    abs_of_pos (by norm_num), ← mul_assoc |error|]
  linarith

/-- Before the first step. -/
theorem Bounded.start (hr : ∀ i, a.rate i = 0) (ht : ∀ i, a.trace i = 0) (he : a.error = 1) :
    Bounded a 0 a := by
  refine ⟨fun i => ?_, fun i => ?_, ?_, fun i => by simp, fun i => by simp⟩
  · rw [hr i]
    exact ⟨le_rfl, zero_le_one⟩
  · rw [ht i]
    exact ⟨le_rfl, by norm_num⟩
  · rw [he, abs_one]

/-- The step lemma. -/
theorem Bounded.learn (h : Bounded a₀ m a) (he : |error| ≤ 1) (hn : |n| ≤ 1) :
    Bounded a₀ (m + 1) (a.learn center error p n) := by
  have hrate : ∀ i, 0 ≤ (a.learn center error p n).rate i ∧
      (a.learn center error p n).rate i ≤ 1 := learn_rate_mem h.rate
  have htrace : ∀ i, 0 ≤ (a.learn center error p n).trace i ∧
      (a.learn center error p n).trace i ≤ 100 / 99 := learn_trace_mem h.rate h.trace
  refine ⟨hrate, htrace, he, fun i => ?_, fun i => ?_⟩
  · have hstep := abs_learn_critic_sub_le (b := 100 / 99) he
      ((abs_of_nonneg (htrace i).1).trans_le (htrace i).2)
    have htri := abs_sub_le ((a.learn center error p n).critic i) (a.critic i) (a₀.critic i)
    have hold := h.critic i
    push_cast
    linarith
  · have hstep := abs_learn_actor_sub_le he hn
      ((abs_of_nonneg (hrate i).1).trans_le (hrate i).2)
    have htri := abs_sub_le ((a.learn center error p n).actor i) (a.actor i) (a₀.actor i)
    have hold := h.actor i
    push_cast
    linarith

/-- A step with an error up to `d` adds `50/99 d` to the weights at most. -/
theorem Budget.learn {w d : α} (h : Budget w a) (he : |error| ≤ d) (hn : |n| ≤ 1) :
    Budget (w + 50 / 99 * d) (a.learn center error p n) := by
  have hrate : ∀ i, 0 ≤ (a.learn center error p n).rate i ∧
      (a.learn center error p n).rate i ≤ 1 := learn_rate_mem h.rate
  have htrace : ∀ i, 0 ≤ (a.learn center error p n).trace i ∧
      (a.learn center error p n).trace i ≤ 100 / 99 := learn_trace_mem h.rate h.trace
  have hd : 0 ≤ d := (abs_nonneg _).trans he
  refine ⟨hrate, htrace, fun i => ?_, fun i => ?_⟩
  · have hstep := abs_learn_critic_sub_le he ((abs_of_nonneg (htrace i).1).trans_le (htrace i).2)
    have hle := abs_sub_abs_le_abs_sub ((a.learn center error p n).critic i) (a.critic i)
    have hw := h.critic i
    linarith
  · have hstep := abs_learn_actor_sub_le he hn ((abs_of_nonneg (hrate i).1).trans_le (hrate i).2)
    have hle := abs_sub_abs_le_abs_sub ((a.learn center error p n).actor i) (a.actor i)
    have hw := h.actor i
    linarith

/-- No contribution exceeds the budget. -/
theorem Budget.abs_mul_rate_le {w : α} (h : Budget w a) (i : ι) :
    |a.critic i * a.rate i| ≤ w ∧ |a.actor i * a.rate i| ≤ w := by
  obtain ⟨hr0, hr1⟩ := h.rate i
  rw [abs_mul, abs_mul, abs_of_nonneg hr0]
  exact ⟨(mul_le_of_le_one_right (abs_nonneg _) hr1).trans (h.critic i),
    (mul_le_of_le_one_right (abs_nonneg _) hr1).trans (h.actor i)⟩

end Learn

end Axis

namespace Parallel
open Lib

section Defs

variable {α G : Type} [Field α] [LinearOrder α] [FloorRing α] [Libm α] [Prng G]

/-- The x axis of a slave, a learner with one population, ... -/
def Core.axisX (c : Core α G) : Axis Unit α where
  rate _ := c.fX
  trace _ := c.eX
  critic _ := c.wVX
  actor _ := c.wATheta
  oldValue := c.oldVX
  error := c.errorX

/-- ... and its y axis. -/
def Core.axisY (c : Core α G) : Axis Unit α where
  rate _ := c.fY
  trace _ := c.eY
  critic _ := c.wVY
  actor _ := c.wAPsi
  oldValue := c.oldVY
  error := c.errorY

/-- The position that an ERROR packet carries, normalised. -/
def ballAt (p : Packet) : Vector2d α :=
  BallParams.normalizedPos (Core.errPos p.key).1 (Core.errPos p.key).2

end Defs

variable {G : Type} [Prng G]

theorem process_axisX (c : Core ℝ G) (p : Packet) : (c.process p).axisX =
    c.axisX.learn (fun _ => c.center.x) (Core.errX p.key p.payload) (ballAt p).x (noise c.gen).1.x := by
  simp only [Core.process, Core.axisX, Core.sendUpd, Core.send, Core.updateV, Core.updateA,
    Core.updateABody, Core.drawNoise, Core.mfm, Core.recErr, vSub, fAbs_eq_abs,
    BallParams.normalizeBallParams_pos]
  rfl

theorem process_axisY (c : Core ℝ G) (p : Packet) : (c.process p).axisY =
    c.axisY.learn (fun _ => c.center.y) (Core.errY p.key p.payload) (ballAt p).y (noise c.gen).1.y := by
  simp only [Core.process, Core.axisY, Core.sendUpd, Core.send, Core.updateV, Core.updateA,
    Core.updateABody, Core.drawNoise, Core.mfm, Core.recErr, vSub, fAbs_eq_abs,
    BallParams.normalizeBallParams_pos]
  rfl

theorem abs_noise_le (g : G) : |(noise (α := ℝ) g).1.x| ≤ 1 ∧ |(noise (α := ℝ) g).1.y| ≤ 1 :=
  ⟨abs_range_le _, abs_range_le _⟩

/-- A slave that has processed `m` messages since the state `c₀`. -/
structure LearningOk (c₀ : Core ℝ G) (m : Nat) (c : Core ℝ G) : Prop where
  simCount : c.simCount = c₀.simCount + m
  x : c₀.axisX.Bounded m c.axisX
  y : c₀.axisY.Bounded m c.axisY

theorem LearningOk.process {c₀ c : Core ℝ G} {m : Nat} (h : LearningOk c₀ m c) {p : Packet}
    (hp : |(Core.errX p.key p.payload : ℝ)| ≤ 1 ∧ |(Core.errY p.key p.payload : ℝ)| ≤ 1) :
    LearningOk c₀ (m + 1) (c.process p) := by
  obtain ⟨hnx, hny⟩ := abs_noise_le c.gen
  refine ⟨?_, ?_, ?_⟩
  · rw [process_simCount, h.simCount]
    push_cast
    ring
  · rw [process_axisX]
    exact h.x.learn hp.1 hnx
  · rw [process_axisY]
    exact h.y.learn hp.2 hny

theorem learningOk_start (s : SlaveId) :
    LearningOk (Core.cMain ℝ G s.1.1 s.1.2) 0 (Core.cMain ℝ G s.1.1 s.1.2) := by
  have hstart := Core.cMain_slaveStart (G := G) (slaves_not_master s.1 s.2)
  refine ⟨by simp, ?_, ?_⟩
  · exact Axis.Bounded.start (fun _ => hstart.rates.1) (fun _ => hstart.traces.1)
      hstart.errors.1
  · exact Axis.Bounded.start (fun _ => hstart.rates.2) (fun _ => hstart.traces.2)
      hstart.errors.2

/-- What a slave makes of packets that the master has sent. -/
theorem learningOk_exec (s : SlaveId) {ps : List Packet} (hps : ∀ p ∈ ps, System.Carried p) :
    let x := exec Node.step ⟨Core.cMain ℝ G s.1.1 s.1.2, []⟩ ps
    LearningOk (Core.cMain ℝ G s.1.1 s.1.2) x.upds.length x.core := by
  have hs : ∀ (x : Node ℝ G) p, LearningOk (Core.cMain ℝ G s.1.1 s.1.2) x.upds.length x.core →
      System.Carried p →
      LearningOk (Core.cMain ℝ G s.1.1 s.1.2) (x.step p).upds.length (x.step p).core := by
    intro x p h hp
    unfold Node.step
    split
    · next hnew =>
      have hlen : (x.answer p).upds.length = x.upds.length + 1 := List.length_append
      rw [hlen]
      exact h.process (hp hnew.1)
    · exact h
  exact exec_induction_along (Q := fun _ p => System.Carried p) hs (learningOk_start s)
    (along_events.mpr hps)

/-- For every run of the system and every slave, after `m` processed messages:
the rates are in `[0, 1]`, the traces in `[0, 100/99]`, the errors in `[-1, 1]`,
each weight of the critic is within `50/99 m` of its initial value and each
weight of the actor within `m/2`. -/
theorem slave_learning_bounded (evs : List SystemEvent) (s : SlaveId) :
    let y : System ℝ G := exec System.step (System.start ℝ G) evs
    LearningOk (Core.cMain ℝ G s.1.1 s.1.2) (y.upds s).length (y.slave s) := by
  intro y
  have hnode := System.node_eq (G := G) s evs
  have h := learningOk_exec (G := G) s (System.arrivals_carried (G := G) s evs)
  rw [← hnode] at h
  exact h

end Parallel

end BallController
