import BallController.Parallel.Aggregates
import BallController.Parallel.Learning

/-! What the reports of a slave lose to the clamps of `send_upd`. Nothing keeps
the weights in the range of the message. As long as every weight has room for
the next change, no product leaves `[-1, 1]`; but the loop of `V_y` is commented
out, no report lowers the error of the y axis, and a weight near a resting ball
grows with every tick. -/

namespace BallController
open Spin1Math

namespace Axis

variable {ι : Type} {α : Type} [Field α] [LinearOrder α] [IsStrictOrderedRing α]
  {center : ι → α} {error p n : α} {a : Axis ι α}

/-- Each weight has room for the largest change that a step with this error and
this noise can make. -/
structure Room (error n : α) (a : Axis ι α) : Prop where
  critic : ∀ i, |a.critic i| + learningRateV * |error| * (lambda * gamma * a.trace i + 1) ≤ 1
  actor : ∀ i, |a.actor i| + learningRateA * |error| * |n| ≤ 1

/-- A weight of the unit interval times a rate. -/
theorem abs_mul_rate_le {w r : α} (hw : |w| ≤ 1) (hr : 0 ≤ r ∧ r ≤ 1) : |w * r| ≤ 1 := by
  rw [abs_mul, abs_of_nonneg hr.1]
  exact mul_le_one₀ hw hr.1 hr.2

theorem Room.critic_le (h : Room error n a) (hr : ∀ i, 0 ≤ a.rate i ∧ a.rate i ≤ 1)
    (ht : ∀ i, 0 ≤ a.trace i) (i : ι) :
    |(a.learn center error p n).critic i * (a.learn center error p n).rate i| ≤ 1 := by
  have hrate : 0 ≤ (a.learn center error p n).rate i ∧ (a.learn center error p n).rate i ≤ 1 :=
    learn_rate_mem hr i
  obtain ⟨hr0, hr1⟩ := hrate
  refine abs_mul_rate_le ?_ ⟨hr0, hr1⟩
  have hroom := h.critic i
  rw [lambda_mul_gamma, learningRateV_eq] at hroom
  have htrace : |(a.learn center error p n).trace i| ≤ 1 / 100 * a.trace i + 1 := by
    have h0 := ht i
    rw [learn_trace, abs_of_nonneg (by linarith)]
    linarith
  have hprod : 1 / 2 * |error| * |(a.learn center error p n).trace i| ≤
      1 / 2 * |error| * (1 / 100 * a.trace i + 1) :=
    mul_le_mul_of_nonneg_left htrace (by positivity)
  have habs := abs_add_le (a.critic i) (1 / 2 * error * (a.learn center error p n).trace i)
  rw [abs_mul, abs_mul, abs_of_pos (by norm_num : (0 : α) < 1 / 2)] at habs
  rw [learn_critic]
  linarith

theorem Room.actor_le (h : Room error n a) (hr : ∀ i, 0 ≤ a.rate i ∧ a.rate i ≤ 1) (i : ι) :
    |(a.learn center error p n).actor i * (a.learn center error p n).rate i| ≤ 1 := by
  have hrate : 0 ≤ (a.learn center error p n).rate i ∧ (a.learn center error p n).rate i ≤ 1 :=
    learn_rate_mem hr i
  obtain ⟨hr0, hr1⟩ := hrate
  refine abs_mul_rate_le ?_ ⟨hr0, hr1⟩
  have hroom := h.actor i
  rw [learningRateA_eq] at hroom
  have hprod : 1 / 2 * |error| * |n| * (a.learn center error p n).rate i ≤ 1 / 2 * |error| * |n| :=
    mul_le_of_le_one_right (by positivity) hr1
  have habs := abs_sub (a.actor i) (1 / 2 * error * n * (a.learn center error p n).rate i)
  rw [abs_mul, abs_mul, abs_mul, abs_of_pos (by norm_num : (0 : α) < 1 / 2), abs_of_nonneg hr0]
    at habs
  rw [learn_actor]
  linarith

/-! A population that has not fired yet has room for two steps. -/

section Fresh

variable {error' n' : α} {i : ι}

theorem room_of_fresh (hw : ∀ i, |a.critic i| ≤ 1 / 10) (hw' : ∀ i, |a.actor i| ≤ 1 / 10)
    (ht : ∀ i, a.trace i = 0) (he : |error| ≤ 1) (hn : |n| ≤ 1) : a.Room error n := by
  have hen : |error| * |n| ≤ 1 := mul_le_one₀ he (abs_nonneg _) hn
  refine ⟨fun i => ?_, fun i => ?_⟩
  · have hwi := hw i
    rw [learningRateV_eq, ht i, mul_zero, zero_add, mul_one]
    linarith
  · have hwi := hw' i
    rw [learningRateA_eq, mul_assoc]
    linarith

/-- The first rate is half an activation. -/
theorem learn_rate_of_fresh (hr : a.rate i = 0) :
    0 ≤ (a.learn center error p n).rate i ∧ (a.learn center error p n).rate i ≤ 1 / 2 := by
  have hrate : (a.learn center error p n).rate i =
      a.rate i + (-a.rate i + activation |p - center i|) * tauM := rfl
  have h0 := activation_nonneg |p - center i|
  have h1 := activation_le_one |p - center i|
  rw [hr, tauM_eq] at hrate
  constructor <;> linarith

/-- So the first step changes a weight by a quarter at most. -/
theorem room_learn_of_fresh (hw : ∀ i, |a.critic i| ≤ 1 / 10) (hw' : ∀ i, |a.actor i| ≤ 1 / 10)
    (hr : ∀ i, a.rate i = 0) (ht : ∀ i, a.trace i = 0) (he : |error| ≤ 1) (hn : |n| ≤ 1)
    (he' : |error'| ≤ 1) (hn' : |n'| ≤ 1) : (a.learn center error p n).Room error' n' := by
  have hen : |error'| * |n'| ≤ 1 := mul_le_one₀ he' (abs_nonneg _) hn'
  have hmem : ∀ i, 0 ≤ (a.learn center error p n).rate i ∧
      (a.learn center error p n).rate i ≤ 1 / 2 := fun i => learn_rate_of_fresh (hr i)
  have hrate : ∀ i, |(a.learn center error p n).rate i| ≤ 1 / 2 := fun i =>
    (abs_of_nonneg (hmem i).1).trans_le (hmem i).2
  have htrace : ∀ i, (a.learn center error p n).trace i = (a.learn center error p n).rate i := by
    intro i
    rw [learn_trace, ht i, zero_div, zero_add]
  refine ⟨fun i => ?_, fun i => ?_⟩
  · obtain ⟨h0, h1⟩ := hmem i
    have hdist : |(a.learn center error p n).critic i - a.critic i| ≤ 1 * (1 / 2) / 2 :=
      abs_learn_critic_sub_le he ((congrArg abs (htrace i)).trans_le (hrate i))
    have hle := abs_sub_abs_le_abs_sub ((a.learn center error p n).critic i) (a.critic i)
    have hwi := hw i
    have hprod : |error'| * (1 / 100 * (a.learn center error p n).rate i + 1) ≤ 1 * (201 / 200) :=
      mul_le_mul he' (by linarith) (by linarith) zero_le_one
    rw [learningRateV_eq, lambda_mul_gamma, htrace i]
    linarith
  · have hdist : |(a.learn center error p n).actor i - a.actor i| ≤ 1 * (1 / 2) / 2 :=
      abs_learn_actor_sub_le he hn (hrate i)
    have hle := abs_sub_abs_le_abs_sub ((a.learn center error p n).actor i) (a.actor i)
    have hwi := hw' i
    rw [learningRateA_eq, mul_assoc]
    linarith

end Fresh

end Axis

namespace Parallel
open Lib

section Defs

variable {α G : Type} [Field α] [LinearOrder α] [FloorRing α] [Libm α] [Prng G]

/-- The four products that `send_upd` passes to `range`. -/
def Core.products (c : Core α G) : Report α :=
  ⟨c.wVX * c.phiMFMX, c.wVY * c.phiMFMY, c.wATheta * c.phiMFMX, c.wAPsi * c.phiMFMY⟩

/-- What `range` makes of them. -/
def Core.ranged (c : Core α G) : Report α := ⟨c.updVX, c.updVY, c.updTheta, c.updPsi⟩

/-- All values lie in `[-1, 1]`. -/
structure Report.InRange (r : Report α) : Prop where
  vX : |r.vX| ≤ 1
  vY : |r.vY| ≤ 1
  theta : |r.theta| ≤ 1
  psi : |r.psi| ≤ 1

end Defs

/-- If the message `p` is new, the weights have room for it. -/
def Node.HasRoom {G : Type} [Prng G] (x : Node ℝ G) (p : Packet) : Prop :=
  Core.IsNewError p.key x.core →
    x.core.axisX.Room (Core.errX p.key p.payload) (noise x.core.gen).1.x ∧
      x.core.axisY.Room (Core.errY p.key p.payload) (noise x.core.gen).1.y

variable {G : Type} [Prng G]

omit [Prng G] in
/-- The clamps change no value of the range. -/
theorem ranged_eq {c : Core ℝ G} (h : c.products.InRange) : c.ranged = c.products := by
  have hr : ∀ v : ℝ, |v| ≤ 1 → range v (-1.0) 1.0 = v := by
    intro v hv
    obtain ⟨h1, h2⟩ := abs_le.mp hv
    exact range_of_mem (by norm_num; linarith) (by norm_num; linarith)
  have hc : c.ranged = ⟨range c.products.vX (-1.0) 1.0, range c.products.vY (-1.0) 1.0,
      range c.products.theta (-1.0) 1.0, range c.products.psi (-1.0) 1.0⟩ := rfl
  rw [hc, hr _ h.vX, hr _ h.vY, hr _ h.theta, hr _ h.psi]

theorem LearningOk.inRange {c₀ c : Core ℝ G} {m : Nat} (h : LearningOk c₀ m c) {p : Packet}
    (hx : c.axisX.Room (Core.errX p.key p.payload) (noise c.gen).1.x)
    (hy : c.axisY.Room (Core.errY p.key p.payload) (noise c.gen).1.y) :
    (c.process p).products.InRange := by
  refine ⟨?_, ?_, ?_, ?_⟩
  · show |(c.process p).axisX.critic () * (c.process p).axisX.rate ()| ≤ 1
    rw [process_axisX]
    exact hx.critic_le h.x.rate (fun i => (h.x.trace i).1) ()
  · show |(c.process p).axisY.critic () * (c.process p).axisY.rate ()| ≤ 1
    rw [process_axisY]
    exact hy.critic_le h.y.rate (fun i => (h.y.trace i).1) ()
  · show |(c.process p).axisX.actor () * (c.process p).axisX.rate ()| ≤ 1
    rw [process_axisX]
    exact hx.actor_le h.x.rate ()
  · show |(c.process p).axisY.actor () * (c.process p).axisY.rate ()| ≤ 1
    rw [process_axisY]
    exact hy.actor_le h.y.rate ()

/-- What a slave has learned and what it has reported. -/
structure ReportsOk (c₀ : Core ℝ G) (x : Node ℝ G) : Prop where
  learning : LearningOk c₀ x.upds.length x.core
  upds : ∀ u ∈ x.upds, u.2.products.InRange

theorem ReportsOk.step {c₀ : Core ℝ G} {x : Node ℝ G} (h : ReportsOk c₀ x) {p : Packet}
    (hroom : x.HasRoom p) (hp : System.Carried p) : ReportsOk c₀ (x.step p) := by
  unfold Node.step
  split
  · next hnew =>
    obtain ⟨hx, hy⟩ := hroom hnew
    have hlen : (x.answer p).upds.length = x.upds.length + 1 := List.length_append
    refine ⟨?_, fun u hu => ?_⟩
    · rw [hlen]
      exact h.learning.process (hp hnew.1)
    · rcases List.mem_append.mp hu with hu | hu
      · exact h.upds u hu
      · obtain rfl := List.mem_singleton.mp hu
        exact h.learning.inRange hx hy
  · exact h

/-- The first message always finds room. -/
theorem hasRoom_start (s : SlaveId) {p : Packet} (hp : System.Carried p) :
    Node.HasRoom (G := G) ⟨Core.cMain ℝ G s.1.1 s.1.2, []⟩ p := by
  intro hnew
  have hstart := Core.cMain_slaveStart (G := G) (slaves_not_master s.1 s.2)
  obtain ⟨hex, hey⟩ := hp hnew.1
  obtain ⟨hnx, hny⟩ := abs_noise_le (Core.cMain ℝ G s.1.1 s.1.2).gen
  exact ⟨Axis.room_of_fresh (fun _ => hstart.weights.1.1) (fun _ => hstart.weights.2.1)
      (fun _ => hstart.traces.1) hex hnx,
    Axis.room_of_fresh (fun _ => hstart.weights.1.2) (fun _ => hstart.weights.2.2)
      (fun _ => hstart.traces.2) hey hny⟩

/-- So does the second: the first changes a weight by a quarter at most. -/
theorem hasRoom_second (s : SlaveId) {p q : Packet} (hp : System.Carried p)
    (hq : System.Carried q) :
    Node.HasRoom (Node.step (G := G) ⟨Core.cMain ℝ G s.1.1 s.1.2, []⟩ p) q := by
  by_cases hnew : Core.IsNewError p.key (Core.cMain ℝ G s.1.1 s.1.2)
  · intro hnew'
    have hstep : Node.step ⟨Core.cMain ℝ G s.1.1 s.1.2, []⟩ p =
        Node.answer ⟨Core.cMain ℝ G s.1.1 s.1.2, []⟩ p := if_pos hnew
    have hstart := Core.cMain_slaveStart (G := G) (slaves_not_master s.1 s.2)
    obtain ⟨hex, hey⟩ := hp hnew.1
    obtain ⟨hex', hey'⟩ := hq hnew'.1
    obtain ⟨hnx, hny⟩ := abs_noise_le (Core.cMain ℝ G s.1.1 s.1.2).gen
    obtain ⟨hnx', hny'⟩ := abs_noise_le ((Core.cMain ℝ G s.1.1 s.1.2).process p).gen
    rw [hstep]
    have hcore : (Node.answer ⟨Core.cMain ℝ G s.1.1 s.1.2, []⟩ p).core =
        (Core.cMain ℝ G s.1.1 s.1.2).process p := rfl
    rw [hcore, process_axisX, process_axisY]
    exact ⟨Axis.room_learn_of_fresh (fun _ => hstart.weights.1.1) (fun _ => hstart.weights.2.1)
        (fun _ => hstart.rates.1) (fun _ => hstart.traces.1) hex hnx hex' hnx',
      Axis.room_learn_of_fresh (fun _ => hstart.weights.1.2) (fun _ => hstart.weights.2.2)
        (fun _ => hstart.rates.2) (fun _ => hstart.traces.2) hey hny hey' hny'⟩
  · have hstep : Node.step ⟨Core.cMain ℝ G s.1.1 s.1.2, []⟩ p =
        ⟨Core.cMain ℝ G s.1.1 s.1.2, []⟩ := if_neg hnew
    rw [hstep]
    exact hasRoom_start s hq

theorem hasRoom_along (s : SlaveId) {ps : List Packet} (hlen : ps.length ≤ 2)
    (hc : ∀ p ∈ ps, System.Carried p) :
    Along Node.step Node.HasRoom (⟨Core.cMain ℝ G s.1.1 s.1.2, []⟩ : Node ℝ G) ps := by
  match ps, hlen with
  | [], _ => trivial
  | [p], _ => exact ⟨hasRoom_start s (hc p List.mem_cons_self), trivial⟩
  | [p, q], _ =>
    have hp := hc p List.mem_cons_self
    exact ⟨hasRoom_start s hp, hasRoom_second s hp (hc q (by simp)), trivial⟩

/-! ## A ball at rest

Without camera samples the ball is tracked at the corner (0, 0). Its reward is
positive there, so the error of the y axis is, and a population that fires there
learns the same sign in every round. -/

/-- The globals of the master after `k` ticks without a camera sample. -/
structure Resting (k : Nat) (c : Core ℝ G) : Prop where
  on : c.timerOn = true ∧ c.state = .unbalanced
  tracker : c.tracker = Tracker.init
  oldVY : c.oldVY = 0
  oldPos : |(BallParams.normalizedPos 0 0 : Vector2d ℝ).y - c.ball.oldPos.y| ≤ 0.63
  spYTerm : c.ball.spYTerm ≤ 0.126
  talk : TalkOk k c
  sent : c.sent.length = 2 * k + 2

/-- The speed term of a ball at rest stays small. -/
theorem resting_speed {b : BallParams ℝ} (t : Nat)
    (hold : |(BallParams.normalizedPos 0 0 : Vector2d ℝ).y - b.oldPos.y| ≤ 0.63)
    (hsp : b.spYTerm ≤ 0.126) :
    |(BallParams.normalizedPos 0 0 : Vector2d ℝ).y - (b.normalizeBallParams 0 0 t).oldPos.y| ≤ 0.63 ∧
      (b.normalizeBallParams 0 0 t).spYTerm ≤ 0.126 := by
  obtain ⟨-, hspeed, hpos⟩ := BallParams.normalizeBallParams_speed 0 0 t b
  rw [hspeed, hpos]
  by_cases ht : t % speedAveragerStep = 0
  · obtain ⟨-, hold'⟩ := BallParams.computeSpeed_of_dvd ht { b with pos := BallParams.normalizedPos 0 0 }
    obtain ⟨-, hsp'⟩ := BallParams.computeSpeed_terms ht { b with pos := BallParams.normalizedPos 0 0 }
    rw [hold', hsp']
    refine ⟨by norm_num, ?_⟩
    dsimp only
    norm_num at hold ⊢
    linarith
  · rw [BallParams.computeSpeed_of_not_dvd ht]
    exact ⟨hold, hsp⟩

theorem masterStart_resting : Resting 0 (masterStart ℝ G) := by
  have hy := BallParams.normalizedPos_zero_mem.2
  have hold : (masterStart ℝ G).ball.oldPos.y = 0 := by
    have h : (masterStart ℝ G).ball.oldPos.y = 0.0 := rfl
    norm_num [h]
  have hsp : (masterStart ℝ G).ball.spYTerm = 0 := by
    have h : (masterStart ℝ G).ball.spYTerm = 0.0 := rfl
    norm_num [h]
  have hv : (masterStart ℝ G).oldVY = 0 := by
    have h : (masterStart ℝ G).oldVY = 0.0 := rfl
    norm_num [h]
  refine ⟨masterStart_unbalanced, rfl, hv, ?_, ?_, ⟨rfl, rfl⟩, rfl⟩
  · rw [hold, sub_zero, abs_of_neg (by linarith)]
    linarith
  · rw [hsp]
    norm_num

/-- A tick of an unbalanced master before `SAVE_STEP`. -/
theorem masterStep_tick {c : Core ℝ G} (hon : c.timerOn = true ∧ c.state = .unbalanced) {t : Nat}
    (ht : t % saveStep ≠ 0) : masterStep c (.tick t) =
      (c.beforeSend t).sendErr (toUint c.tracker.xPos) (toUint c.tracker.yPos) := by
  have hstate : ((c.beforeSend t).sendErr (toUint c.tracker.xPos) (toUint c.tracker.yPos)).state =
      .unbalanced := rfl
  simp only [masterStep, if_pos hon.1, Core.update, if_pos hon.2, hstate]
  rw [if_neg]
  rintro (h | h)
  · cases h
  · exact ht h.2

theorem sendErr_sent (c : Core ℝ G) (t : Nat) (xPos yPos : Uint) :
    ((c.beforeSend t).sendErr xPos yPos).sent = c.sent ++
      [sendNormMotorCommand (c.command t).1 (c.command t).2,
        (c.beforeSend t).sendErrPacket xPos yPos] := by
  simp [Core.sendErr, Core.beforeSend_sent, Core.command]

/-- The step lemma of the master. -/
theorem Resting.tick {k : Nat} {c : Core ℝ G} (h : Resting k c) :
    let m := (c.beforeSend (k + 1)).sendErr (toUint c.tracker.xPos) (toUint c.tracker.yPos)
    Resting (k + 1) m ∧ 0.24 ≤ m.errorY := by
  intro m
  have hok : c.tracker.Ok := by
    rw [h.tracker]
    exact Tracker.init_ok
  have hball : m.ball = c.ball.normalizeBallParams 0 0 (k + 1) := by
    have hm : m.ball = c.ball.normalizeBallParams (toUint c.tracker.xPos).toInt
        (toUint c.tracker.yPos).toInt (k + 1) := rfl
    rw [hm, h.tracker]
    rfl
  obtain ⟨hold, hsp⟩ := resting_speed (k + 1) h.oldPos h.spYTerm
  have hv : m.oldVY = invDeltaTime * c.vY := rfl
  have herr : m.errorY = range (m.ball.rY + gamma * (invDeltaTime * c.vY) - c.oldVY) (-1.0) 1.0 := rfl
  have hreward : 0.24 ≤ m.ball.rPosY - m.ball.spYTerm := by
    have hc := BallParams.normalizedPos_zero_mem.2
    rw [BallParams.rPosY, hball, BallParams.normalizeBallParams_pos, fAbs_eq_abs,
      abs_of_neg (by linarith)]
    norm_num at hc hsp ⊢
    linarith
  have hr : 0.24 ≤ m.ball.rY := (le_range_iff (by norm_num) (by norm_num)).mpr hreward
  refine ⟨⟨⟨h.on.1, rfl⟩, h.tracker, ?_, ?_, ?_, (h.talk.sendErr hok (k + 1)).2, ?_⟩, ?_⟩
  · rw [hv, Core.vY_eq, mul_zero]
  · rw [hball]
    exact hold
  · rw [hball]
    exact hsp
  · rw [sendErr_sent, List.length_append, h.sent]
    rfl
  · rw [herr, Core.vY_eq, h.oldVY, mul_zero, mul_zero, add_zero, sub_zero]
    exact (le_range_iff (by norm_num) (by norm_num)).mpr hr

/-- The cells of the y axis after a message. -/
theorem process_cellsY (c : Core ℝ G) (p : Packet) :
    (c.process p).fY =
        c.fY + (-c.fY + activation |(ballAt p : Vector2d ℝ).y - c.center.y|) * tauM ∧
      (c.process p).eY = c.eY / 100 + (c.process p).fY ∧
      (c.process p).wVY = c.wVY + 1 / 2 * Core.errY p.key p.payload * (c.process p).eY := by
  have haxis := process_axisY c p
  refine ⟨congrArg (fun a => a.rate ()) haxis, ?_, ?_⟩
  · show (c.process p).axisY.trace () = c.axisY.trace () / 100 + (c.process p).axisY.rate ()
    rw [haxis]
    exact Axis.learn_trace ()
  · show (c.process p).axisY.critic () = c.axisY.critic () +
      1 / 2 * Core.errY p.key p.payload * (c.process p).axisY.trace ()
    rw [haxis]
    exact Axis.learn_critic ()

/-- A ball in the corner is near the row of core 1 of chip 257. -/
theorem corner_activation :
    0.6 ≤ activation
      |(BallParams.normalizedPos 0 0 : Vector2d ℝ).y - (centerOf 257 1 : Vector2d ℝ).y| := by
  obtain ⟨hy1, hy2⟩ := BallParams.normalizedPos_zero_mem.2
  obtain ⟨hc1, hc2⟩ := centerOf_257_1_mem
  have hd : |(BallParams.normalizedPos 0 0 : Vector2d ℝ).y - (centerOf 257 1 : Vector2d ℝ).y| ≤ 0.14 :=
    abs_le.mpr ⟨by linarith, by linarith⟩
  have hact := le_activation (abs_nonneg
    ((BallParams.normalizedPos 0 0 : Vector2d ℝ).y - (centerOf 257 1 : Vector2d ℝ).y))
  norm_num at hd ⊢
  linarith

/-- A slave near the corner after `k` messages from there. -/
structure Growing (k : Nat) (c : Core ℝ G) : Prop where
  center : c.center = centerOf 257 1
  nodeCounter : c.nodeCounter.toNat = k % 50
  fY : 0 ≤ c.fY
  fired : 0 < k → 0.3 ≤ c.fY
  eY : 0 ≤ c.eY
  wVY : -0.1 + 0.034 * k ≤ c.wVY

/-- The step lemma of the slave: the rate is at least half the activation, the
trace at least the rate, and the weight grows with both. -/
theorem Growing.process {k : Nat} {c m : Core ℝ G} {p : Packet} (h : Growing k c)
    (hdec : ErrDecodes m p) (hok : SenderOk k m) (htracker : m.tracker = Tracker.init)
    (herr : 0.24 ≤ m.errorY) : Core.IsNewError p.key c ∧ Growing (k + 1) (c.process p) := by
  have hnew : Core.IsNewError p.key c := by
    refine (hdec.isNewError c).mpr fun he => ?_
    have hn := congrArg BitVec.toNat he
    rw [hok.counter, h.nodeCounter] at hn
    omega
  have hpos : (ballAt p : Vector2d ℝ) = BallParams.normalizedPos 0 0 := by
    rw [ballAt, hdec.errPos, htracker]
    rfl
  have hcounter : (c.process p).nodeCounter.toNat = (k + 1) % 50 := by
    rw [process_nodeCounter, hdec.counter, hok.counter]
  have herrY : 0.23 ≤ (Core.errY p.key p.payload : ℝ) := by
    have hq := (abs_lt.mp (abs_quantize_sub_lt (k := 10000) (by norm_num) m.errorY)).1
    rw [hdec.errors.2]
    norm_num at herr hq ⊢
    linarith
  obtain ⟨hrate, htrace, hcritic⟩ := process_cellsY c p
  rw [hpos, h.center, tauM_eq] at hrate
  have hact := corner_activation
  have hfire : 0.3 ≤ (c.process p).fY := by
    have hf := h.fY
    rw [hrate]
    norm_num at hact ⊢
    linarith
  have heY : 0.3 ≤ (c.process p).eY := by
    have he := h.eY
    rw [htrace]
    linarith
  refine ⟨hnew, h.center, hcounter, by linarith, fun _ => hfire, by linarith, ?_⟩
  have hprod : (0.23 : ℝ) * 0.3 ≤ Core.errY p.key p.payload * (c.process p).eY :=
    mul_le_mul herrY heY (by norm_num) (by linarith)
  have hw := h.wVY
  rw [hcritic, mul_assoc]
  push_cast
  norm_num at hprod hw ⊢
  linarith

/-! ## The run -/

/-- `k` rounds without camera samples: a tick, and its ERROR packet reaches the
slave `s`. -/
def restingRun (s : SlaveId) (k : Nat) : List SystemEvent :=
  (List.range k).flatMap fun j => [.tick (j + 1), .toSlave s (2 * j + 3)]

theorem restingRun_succ (s : SlaveId) (k : Nat) :
    restingRun s (k + 1) = restingRun s k ++ [.tick (k + 1), .toSlave s (2 * k + 3)] := by
  simp [restingRun, List.range_succ, List.flatMap_append]

theorem length_arrivals_restingRun (s : SlaveId) (k : Nat) :
    (System.arrivals G s (restingRun s k)).length ≤ k := by
  induction k with
  | zero => exact le_rfl
  | succ k ih =>
    rw [System.arrivals, restingRun_succ, emitted_append, List.length_append]
    refine Nat.add_le_add ih ?_
    simp only [emitted, System.arrives, if_true, List.nil_append, List.append_nil]
    exact Option.length_toList_le

/-- The system after `k` of them. -/
structure RestingOk (s : SlaveId) (k : Nat) (y : System ℝ G) : Prop where
  master : Resting k y.master
  slave : Growing k (y.slave s)
  count : (y.upds s).length = k
  last : 0 < k → ∃ u ∈ y.upds s, u.2 = y.slave s

/-- The tick of a round, and the packet that it sends to the slaves. -/
theorem RestingOk.tick {s : SlaveId} {k : Nat} {y : System ℝ G} (h : RestingOk s k y)
    (hk : (k + 1) % saveStep ≠ 0) : ∃ m p, Resting (k + 1) m ∧ 0.24 ≤ m.errorY ∧ SenderOk k m ∧
      ErrDecodes m p ∧ m.tracker = Tracker.init ∧ m.sent[2 * k + 3]? = some p ∧
      y.step (.tick (k + 1)) = { y with master := m } := by
  have hok : y.master.tracker.Ok := by
    rw [h.master.tracker]
    exact Tracker.init_ok
  obtain ⟨hmaster, herr⟩ := h.master.tick
  refine ⟨_, _, hmaster, herr, (h.master.talk.sendErr hok (k + 1)).1, errDecodes_sendErr hok (k + 1),
    h.master.tracker, ?_, ?_⟩
  · rw [sendErr_sent, List.getElem?_append_right (by rw [h.master.sent]; omega), h.master.sent,
      show 2 * k + 3 - (2 * k + 2) = 1 by omega]
    rfl
  · show { y with master := masterStep y.master (.tick (k + 1)) } = _
    rw [masterStep_tick h.master.on hk]

theorem RestingOk.round {s : SlaveId} {k : Nat} {y : System ℝ G} (h : RestingOk s k y)
    (hk : (k + 1) % saveStep ≠ 0) :
    RestingOk s (k + 1) ((y.step (.tick (k + 1))).step (.toSlave s (2 * k + 3))) := by
  obtain ⟨m, p, hmaster, herr, hsend, hdec, htracker, hp, htick⟩ := h.tick hk
  obtain ⟨hnew, hgrow⟩ := h.slave.process hdec hsend htracker herr
  have hstep : (y.step (.tick (k + 1))).step (.toSlave s (2 * k + 3)) =
      { y with master := m }.slaveGets s p := by
    rw [htick]
    exact System.step_toSlave hp
  have hnode : ({ y with master := m }.slaveGets s p).node s = (y.node s).answer p := by
    rw [System.node_slaveGets]
    exact if_pos hnew
  have hslave : ({ y with master := m }.slaveGets s p).slave s = (y.slave s).process p :=
    congrArg Node.core hnode
  have hupds : ({ y with master := m }.slaveGets s p).upds s =
      y.upds s ++ [(((y.slave s).process p).sendUpdPacket, (y.slave s).process p)] :=
    congrArg Node.upds hnode
  rw [hstep]
  refine ⟨hmaster, ?_, ?_, fun _ => ?_⟩
  · rw [hslave]
    exact hgrow
  · rw [hupds, List.length_append, List.length_singleton, h.count]
  · rw [hupds, hslave]
    exact ⟨_, List.mem_append_right _ (List.mem_singleton_self _), rfl⟩

theorem start_restingOk (h : ((257, 1) : Uint × Uint) ∈ slaves) :
    RestingOk ⟨(257, 1), h⟩ 0 (System.start ℝ G) := by
  have hstart := Core.cMain_slaveStart (G := G) (slaves_not_master _ h)
  refine ⟨masterStart_resting, ?_, rfl, fun h0 => absurd h0 (lt_irrefl 0)⟩
  show Growing 0 (Core.cMain ℝ G 257 1)
  refine ⟨(Core.cMain_slave (slaves_not_master _ h)).2.2.1, ?_, hstart.rates.2.ge,
    fun h0 => absurd h0 (lt_irrefl 0), hstart.traces.2.ge, ?_⟩
  · rw [hstart.nodeCounter]
    rfl
  · have hw := neg_le_of_abs_le hstart.weights.1.2
    norm_num at hw ⊢
    linarith

theorem restingOk_exec (h : ((257, 1) : Uint × Uint) ∈ slaves) (k : Nat) (hk : k < saveStep) :
    RestingOk ⟨(257, 1), h⟩ k (exec System.step (System.start ℝ G) (restingRun ⟨(257, 1), h⟩ k)) := by
  induction k with
  | zero => exact start_restingOk h
  | succ k ih =>
    rw [restingRun_succ, exec_append]
    refine (ih (by omega)).round ?_
    rw [Nat.mod_eq_of_lt hk]
    omega

/-! ## The reports -/

/-- In every run of the system in which each message that is new to the slave
`s` finds its weights with room, all its products are in range at every call of
`send_upd`, and the clamps change none of them. -/
theorem reports_in_range (evs : List SystemEvent) (s : SlaveId)
    (h : Along Node.step Node.HasRoom ⟨Core.cMain ℝ G s.1.1 s.1.2, []⟩ (System.arrivals G s evs)) :
    ∀ u ∈ (exec System.step (System.start ℝ G) evs).upds s,
      u.2.products.InRange ∧ u.2.ranged = u.2.products := by
  have hstart : ReportsOk (Core.cMain ℝ G s.1.1 s.1.2) ⟨Core.cMain ℝ G s.1.1 s.1.2, []⟩ :=
    ⟨learningOk_start s, fun u hu => by cases hu⟩
  have hcarried : Along Node.step (fun _ p => System.Carried p)
      ⟨Core.cMain ℝ G s.1.1 s.1.2, []⟩ (System.arrivals G s evs) :=
    along_events.mpr (System.arrivals_carried s evs)
  have hstep : ∀ (x : Node ℝ G) p, ReportsOk (Core.cMain ℝ G s.1.1 s.1.2) x →
      x.HasRoom p ∧ System.Carried p → ReportsOk (Core.cMain ℝ G s.1.1 s.1.2) (x.step p) :=
    fun x p hx hp => hx.step hp.1 hp.2
  have hrun := exec_induction_along hstep hstart (h.and hcarried)
  rw [← System.node_eq s evs] at hrun
  exact fun u hu => ⟨hrun.upds u hu, ranged_eq (hrun.upds u hu)⟩

/-- Two rounds: the slave has reported twice, the second time after it has
learned. -/
theorem reports_in_range_two :
    let s : SlaveId := ⟨(257, 1), by decide⟩
    let y : System ℝ MuslRand := exec System.step (System.start ℝ MuslRand) (restingRun s 2)
    (y.upds s).length = 2 ∧ ∀ u ∈ y.upds s, u.2.products.InRange ∧ u.2.ranged = u.2.products := by
  intro s y
  have hcount : (y.upds s).length = 2 := (restingOk_exec (by decide) 2 (by decide)).count
  have hlen : (System.arrivals MuslRand s (restingRun s 2)).length ≤ 2 :=
    length_arrivals_restingRun s 2
  exact ⟨hcount, reports_in_range (restingRun s 2) s
    (hasRoom_along s hlen (System.arrivals_carried s (restingRun s 2)))⟩

theorem restingRun_saturates (h : ((257, 1) : Uint × Uint) ∈ slaves) :
    ∃ u ∈ (exec System.step (System.start ℝ G) (restingRun ⟨(257, 1), h⟩ 110)).upds ⟨(257, 1), h⟩,
      ¬u.2.products.InRange ∧ u.2.ranged ≠ u.2.products := by
  have hrun := restingOk_exec (G := G) h 110 (by decide)
  obtain ⟨u, hu, hs⟩ := hrun.last (by omega)
  have hgrow := hrun.slave
  rw [← hs] at hgrow
  have hprod : 1 < u.2.products.vY := by
    have hf := hgrow.fired (by omega)
    have hw := hgrow.wVY
    have hw' : (3.6 : ℝ) ≤ u.2.wVY := by
      norm_num at hw ⊢
      linarith
    have hmul : (3.6 : ℝ) * 0.3 ≤ u.2.wVY * u.2.fY :=
      mul_le_mul hw' hf (by norm_num) (by linarith)
    have hv : u.2.products.vY = u.2.wVY * u.2.fY := rfl
    rw [hv]
    norm_num at hmul ⊢
    linarith
  refine ⟨u, hu, fun hin => ?_, fun he => ?_⟩
  · exact absurd (le_of_abs_le hin.vY) (not_le.mpr hprod)
  · have hv : u.2.updVY = u.2.products.vY := congrArg Report.vY he
    have hle : u.2.updVY ≤ 1 := le_of_abs_le (abs_range_le _)
    rw [hv] at hle
    exact absurd hle (not_le.mpr hprod)

/-- A ball that nobody has seen yet: after 110 rounds the product of the y axis
of core 1 of chip 257 is above 1, and its clamp changes it. -/
theorem report_saturates :
    ∃ u ∈ (exec System.step (System.start ℝ MuslRand)
        (restingRun ⟨(257, 1), by decide⟩ 110)).upds ⟨(257, 1), by decide⟩,
      ¬u.2.products.InRange ∧ u.2.ranged ≠ u.2.products :=
  restingRun_saturates (by decide)

end Parallel

end BallController
