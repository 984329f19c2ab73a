import BallController.Parallel.Learning
import BallController.Sequential.Init

/-! Lossless rounds of the parallel program against the ticks of the sequential
one. In a round the master ticks, every slave answers its ERROR packet and every
answer reaches a cell of its own. The messages are read as exact values here.
The x axis of the rounds is then one abstract learner, which values, commands,
fires and learns in this order. The five functions of the sequential program in
that order are the same learner; in its own order they are not. -/

namespace BallController
open Lib Spin1Math

/-- The tracked position and the time of a tick. -/
structure Round where
  xPos : Uint
  yPos : Uint
  simTime : Nat

/-- The weights of a population. -/
structure Weights (α : Type) where
  vX : α
  vY : α
  theta : α
  psi : α

namespace Parallel

/-- The master and 59 populations. -/
structure Rounds (α G : Type) where
  master : Core α G
  slave : Fin nMFM → Core α G

namespace Rounds

variable {α G : Type} [Field α] [LinearOrder α] [FloorRing α] [Libm α] [Prng G]

/-- The master in the state in which the tick calls `move`. -/
def beforeMove (r : Round) (p : Rounds α G) : Core α G :=
  p.master.updateError r.xPos r.yPos r.simTime

/-- The x-axis output of the tick, before it is clamped. -/
def theta (r : Round) (p : Rounds α G) : α := (p.beforeMove r).drawNoise.actorOutputs.1

/-- `eventNode` up to `send_upd`, for an ERROR packet read as these values. -/
def answer (r : Round) (counter : Uint) (errorX errorY : α) (c : Core α G) : Core α G :=
  let c := { c with simCount := c.simCount + 1, nodeCounter := counter }
  let c := { c with
    ball := c.ball.normalizeBallParams r.xPos.toInt r.yPos.toInt c.simCount.toNat
    errorX := errorX
    errorY := errorY }
  (c.mfm.updateA).updateV

/-- The tick of the master, the answers and `rec_upd` for each of them, with
exact values in the messages. -/
def round (p : Rounds α G) (r : Round) : Rounds α G :=
  let m := p.beforeMove r
  let slave := fun i => answer r p.master.nextCounter m.errorX m.errorY (p.slave i)
  { master := { m.move.1.sendErr r.xPos r.yPos with
      vXArray := fun i => (slave i).updVX
      aThetaArray := fun i => (slave i).updTheta
      aPsiArray := fun i => (slave i).updPsi }
    slave := slave }

/-- The programs after `c_main`, with given weights. -/
def start (α G : Type) [Field α] [LinearOrder α] [FloorRing α] [Libm α] [Prng G]
    (w : Fin nMFM → Weights α) : Rounds α G where
  master := masterStart α G
  slave i := { Core.cMain α G (slaves.getD i (0, 0)).1 (slaves.getD i (0, 0)).2 with
    wVX := (w i).vX, wVY := (w i).vY, wATheta := (w i).theta, wAPsi := (w i).psi }

/-- The x axis as one learner. -/
def axisX (p : Rounds α G) : Axis (Fin nMFM) α where
  rate i := (p.slave i).fX
  trace i := (p.slave i).eX
  critic i := (p.slave i).wVX
  actor i := (p.slave i).wATheta
  oldValue := p.master.oldVX
  error := p.master.errorX

/-- The reward of the tick. -/
def rewardX (r : Round) (p : Rounds α G) : α :=
  (p.master.ball.normalizeBallParams r.xPos.toInt r.yPos.toInt r.simTime).rX

end Rounds

end Parallel

namespace Sequential.State

variable {N : Nat} {α G : Type} [Field α] [LinearOrder α] [FloorRing α] [Libm α] [Prng G]

/-- The tick of `update`, at a given tracked position. -/
def tick (s : State N α G) (r : Round) : State N α G :=
  { s with tracker := { s.tracker with xPos := r.xPos.toInt, yPos := r.yPos.toInt } }.learn r.simTime

/-- The error first, then the command, then the populations: the state in which
`move` is called, ... -/
def reorderedMove (r : Round) (s : State N α G) : State N α G :=
  (s.updateError r.xPos.toInt r.yPos.toInt r.simTime).drawNoise

/-- ... and the state after the tick; the noise of the command is that of the
learning step. -/
def reordered (s : State N α G) (r : Round) : State N α G :=
  (forLoop N updateABody ((s.reorderedMove r).move r.simTime).1.mfm).updateV

end Sequential.State

/-- The sequential program on the populations of the parallel one. -/
def sequentialStart (α G : Type) [Field α] [LinearOrder α] [FloorRing α] [Libm α] [Prng G]
    (w : Fin Parallel.nMFM → Weights α) : Sequential.State Parallel.nMFM α G :=
  let p := Parallel.Rounds.start α G w
  { Sequential.State.cMain Parallel.nMFM α G 0 with
    ball := p.master.ball
    gen := p.master.gen
    center := fun i => (p.slave i).center
    wVXArray := fun i => (w i).vX
    wVYArray := fun i => (w i).vY
    wAThetaArray := fun i => (w i).theta
    wAPsiArray := fun i => (w i).psi }

variable {G : Type} [Prng G]

/-! ## The rounds -/

namespace Parallel.Rounds

/-- No clamp changes a value of the x axis in the round. -/
structure NoClamp (p : Rounds ℝ G) (r : Round) : Prop where
  error : |p.rewardX r + gamma * (invDeltaTime * p.master.vX) - p.master.oldVX| ≤ 1
  vX : ∀ i, |((p.round r).slave i).wVX * ((p.round r).slave i).fX| ≤ 1
  theta : ∀ i, |((p.round r).slave i).wATheta * ((p.round r).slave i).fX| ≤ 1

/-- Between rounds the master holds the contribution of every slave, and all
cores have drawn the same noise. -/
structure Ok (p : Rounds ℝ G) : Prop where
  vX : ∀ i, p.master.vXArray i = (p.slave i).wVX * (p.slave i).fX
  theta : ∀ i, p.master.aThetaArray i = (p.slave i).wATheta * (p.slave i).fX
  gen : ∀ i, (p.slave i).gen = p.master.gen

theorem range_of_abs_le {v : ℝ} (h : |v| ≤ 1) : range v (-1.0) 1.0 = v := by
  obtain ⟨h1, h2⟩ := abs_le.mp h
  exact range_of_mem (by norm_num; exact h1) (by norm_num; exact h2)

/-- What a slave does to its population. -/
theorem answer_spec (r : Round) (k : Uint) (ex ey : ℝ) (c : Core ℝ G) :
    let p : Vector2d ℝ := BallParams.normalizedPos r.xPos.toInt r.yPos.toInt
    let f := c.fX + (-c.fX + activation |p.x - c.center.x|) * tauM
    let e := lambda * gamma * c.eX + f
    (answer r k ex ey c).fX = f ∧ (answer r k ex ey c).eX = e ∧
      (answer r k ex ey c).wVX = c.wVX + learningRateV * ex * e ∧
      (answer r k ex ey c).wATheta = c.wATheta - learningRateA * ex * (noise c.gen).1.x * f ∧
      (answer r k ex ey c).gen = (noise (α := ℝ) c.gen).2 ∧ (answer r k ex ey c).center = c.center := by
  intro p f e
  have hf : (answer r k ex ey c).fX = f := by
    simp only [answer, Core.updateV, Core.updateA, Core.updateABody, Core.drawNoise, Core.mfm, vSub,
      BallParams.normalizeBallParams_pos, fAbs_eq_abs]
    rfl
  have he : (answer r k ex ey c).eX = lambda * gamma * c.eX + (answer r k ex ey c).fX := rfl
  have hw : (answer r k ex ey c).wVX = c.wVX + learningRateV * ex * (answer r k ex ey c).eX := rfl
  have ha : (answer r k ex ey c).wATheta =
    c.wATheta - learningRateA * ex * (noise c.gen).1.x * (answer r k ex ey c).fX := rfl
  rw [hf] at he ha
  rw [he] at hw
  exact ⟨hf, he, hw, ha, rfl, rfl⟩

omit [Prng G] in
/-- The value that the master adds up is that of the learner. -/
theorem Ok.vX_eq {p : Rounds ℝ G} (h : p.Ok) : p.master.vX = p.axisX.value := by
  rw [Core.vX_eq, Axis.value]
  exact congrArg Axis.mean (funext h.vX)

omit [Prng G] in
theorem Ok.action_eq {p : Rounds ℝ G} (h : p.Ok) : Axis.mean p.master.aThetaArray = p.axisX.action := by
  rw [Axis.action]
  exact congrArg Axis.mean (funext h.theta)

omit [Prng G] in
theorem Ok.error_eq {p : Rounds ℝ G} (h : p.Ok) (r : Round) :
    p.rewardX r + gamma * (invDeltaTime * p.master.vX) - p.master.oldVX =
      (p.axisX.evaluate (p.rewardX r)).error := by
  rw [h.vX_eq]
  rfl

omit [Prng G] in
theorem beforeMove_error {p : Rounds ℝ G} {r : Round} (h : p.Ok)
    (he : |(p.axisX.evaluate (p.rewardX r)).error| ≤ 1) :
    (p.beforeMove r).errorX = (p.axisX.evaluate (p.rewardX r)).error := by
  have hclamp : (p.beforeMove r).errorX = range (p.rewardX r + gamma * (invDeltaTime * p.master.vX) -
    p.master.oldVX) (-1.0) 1.0 := rfl
  rw [hclamp, h.error_eq, range_of_abs_le he]

omit [Prng G] in
theorem beforeMove_oldVX {p : Rounds ℝ G} (h : p.Ok) (r : Round) :
    (p.beforeMove r).oldVX = (p.axisX.evaluate (p.rewardX r)).oldValue := by
  have he : (p.beforeMove r).oldVX = invDeltaTime * p.master.vX := rfl
  rw [he, h.vX_eq]
  rfl

theorem theta_eq {p : Rounds ℝ G} (h : p.Ok) (r : Round) :
    p.theta r = (p.axisX.evaluate (p.rewardX r)).output (noise p.master.gen).1.x := by
  have ht : p.theta r = Axis.mean p.master.aThetaArray +
      sigmaOf (p.beforeMove r).oldVX * (noise p.master.gen).1.x := by
    simp only [theta, Core.actorOutputs, Core.actorMeans_eq]
    rfl
  rw [ht, h.action_eq, beforeMove_oldVX h]
  rfl

/-- A round is a step of the learner. -/
theorem round_axisX {p : Rounds ℝ G} {r : Round} (h : p.Ok)
    (he : |(p.axisX.evaluate (p.rewardX r)).error| ≤ 1) :
    (p.round r).axisX = p.axisX.step (fun i => (p.slave i).center.x) (p.rewardX r)
      (BallParams.normalizedPos r.xPos.toInt r.yPos.toInt : Vector2d ℝ).x
      (noise p.master.gen).1.x := by
  have hs := fun i => answer_spec r p.master.nextCounter (p.beforeMove r).errorX
    (p.beforeMove r).errorY (p.slave i)
  have hold : (p.round r).axisX.oldValue = (p.beforeMove r).oldVX := rfl
  have herr : (p.round r).axisX.error = (p.beforeMove r).errorX := rfl
  refine Axis.ext (funext fun i => ?_) (funext fun i => ?_) (funext fun i => ?_)
    (funext fun i => ?_) (hold.trans (beforeMove_oldVX h r)) (herr.trans (beforeMove_error h he))
  · exact (hs i).1
  · exact (hs i).2.1
  · refine (hs i).2.2.1.trans ?_
    rw [beforeMove_error h he]
    rfl
  · refine (hs i).2.2.2.1.trans ?_
    rw [beforeMove_error h he, h.gen i]
    rfl

theorem NoClamp.error_le {p : Rounds ℝ G} {r : Round} (hr : p.NoClamp r) (h : p.Ok) :
    |(p.axisX.evaluate (p.rewardX r)).error| ≤ 1 := by
  rw [← h.error_eq]
  exact hr.error

theorem round_ok {p : Rounds ℝ G} {r : Round} (h : p.Ok) (hr : p.NoClamp r) : (p.round r).Ok where
  vX i := range_of_abs_le (hr.vX i)
  theta i := range_of_abs_le (hr.theta i)
  gen i := by
    have hs := answer_spec r p.master.nextCounter (p.beforeMove r).errorX (p.beforeMove r).errorY
      (p.slave i)
    refine hs.2.2.2.2.1.trans ?_
    rw [h.gen i]
    rfl

end Parallel.Rounds

/-! ## The sequential functions in the order of the rounds -/

namespace Sequential.State

theorem reorderedMove_axisX {N : Nat} (s : State N ℝ G) (r : Round) :
    (s.reorderedMove r).axisX =
      s.axisX.evaluate (s.ball.normalizeBallParams r.xPos.toInt r.yPos.toInt r.simTime).rX := by
  rw [reorderedMove, updateError_eq]
  rfl

theorem reordered_axisX {N : Nat} (s : State N ℝ G) (r : Round) :
    (s.reordered r).axisX = s.axisX.step s.centerX
      (s.ball.normalizeBallParams r.xPos.toInt r.yPos.toInt r.simTime).rX
      (BallParams.normalizedPos r.xPos.toInt r.yPos.toInt : Vector2d ℝ).x
      (noise s.gen).1.x := by
  have hpos : (s.reorderedMove r).ball.pos = BallParams.normalizedPos r.xPos.toInt r.yPos.toInt := by
    rw [reorderedMove, updateError_eq]
    exact BallParams.normalizeBallParams_pos _ _ _ _
  have hcenter : (s.reorderedMove r).centerX = s.centerX := rfl
  have hn : (s.reorderedMove r).n = (noise s.gen).1 := rfl
  have hax := reorderedMove_axisX s r
  rw [reordered, updateV_eq, updateABody_loop, mfm_eq, move_fst]
  generalize s.reorderedMove r = m at *
  rw [Axis.step, ← hax, ← hpos, ← hcenter, ← hn]
  rfl

theorem reordered_frame {N : Nat} (s : State N ℝ G) (r : Round) :
    (s.reordered r).ball = s.ball.normalizeBallParams r.xPos.toInt r.yPos.toInt r.simTime ∧
      (s.reordered r).gen = (noise (α := ℝ) s.gen).2 ∧ (s.reordered r).center = s.center := by
  rw [reordered, updateV_eq, updateABody_loop, mfm_eq, move_fst, reorderedMove, updateError_eq]
  exact ⟨rfl, rfl, rfl⟩

end Sequential.State

/-! ## Agreement -/

/-- The two programs are the same learner in the same state. -/
structure Coupled (p : Parallel.Rounds ℝ G) (s : Sequential.State Parallel.nMFM ℝ G) : Prop where
  ok : p.Ok
  axisX : s.axisX = p.axisX
  ball : s.ball = p.master.ball
  gen : s.gen = p.master.gen
  center : ∀ i, s.center i = (p.slave i).center

theorem Coupled.step {p : Parallel.Rounds ℝ G} {s : Sequential.State Parallel.nMFM ℝ G} {r : Round}
    (h : Coupled p s) (hr : p.NoClamp r) : Coupled (p.round r) (s.reordered r) := by
  obtain ⟨hball, hgen, hcenter⟩ := s.reordered_frame r
  refine ⟨Parallel.Rounds.round_ok h.ok hr, ?_, ?_, ?_, fun i => ?_⟩
  · have hc : s.centerX = fun i => (p.slave i).center.x :=
      funext fun i => congrArg Vector2d.x (h.center i)
    rw [Parallel.Rounds.round_axisX h.ok (hr.error_le h.ok), s.reordered_axisX, h.axisX, h.ball, h.gen, hc]
    rfl
  · rw [hball, h.ball]
    rfl
  · rw [hgen, h.gen]
    rfl
  · rw [hcenter, h.center i]
    rfl

theorem Parallel.Rounds.start_silent (w : Fin Parallel.nMFM → Weights ℝ) (i : Fin Parallel.nMFM) :
    ((Parallel.Rounds.start ℝ G w).slave i).fX = 0 ∧ ((Parallel.Rounds.start ℝ G w).slave i).eX = 0 := by
  have h0 : (0.0 : ℝ) = 0 := by norm_num
  obtain ⟨h1, _⟩ := Parallel.Core.cMain_fresh (G := G) (Parallel.slaves.getD i (0, 0)).1
    (Parallel.slaves.getD i (0, 0)).2
  rw [h0] at h1
  exact Prod.ext_iff.mp h1

theorem coupled_start (w : Fin Parallel.nMFM → Weights ℝ) :
    Coupled (Parallel.Rounds.start ℝ G w) (sequentialStart ℝ G w) := by
  have hf := Parallel.Rounds.start_silent (G := G) w
  refine ⟨⟨fun i => ?_, fun i => ?_, fun i => ?_⟩, ?_, rfl, rfl, fun _ => rfl⟩
  · rw [(hf i).1, mul_zero]
    rfl
  · rw [(hf i).1, mul_zero]
    rfl
  · rfl
  · have hax : (sequentialStart ℝ G w).axisX = { (Sequential.State.cMain Parallel.nMFM ℝ G 0).axisX with
      critic := fun i => (w i).vX, actor := fun i => (w i).theta } := rfl
    rw [hax]
    refine Axis.ext (funext fun i => ?_) (funext fun i => ?_) rfl rfl ?_ ?_
    · simp only [Sequential.State.axisX, Sequential.State.cMain_fX]
      exact (hf i).1.symm
    · simp only [Sequential.State.axisX, Sequential.State.cMain_eXArray]
      exact (hf i).2.symm
    · simp only [Sequential.State.axisX, Sequential.State.cMain_oldVX]
      rfl
    · simp only [Sequential.State.axisX, Sequential.State.cMain_errorX]
      rfl

/-! ## Rounds in which no clamp matters -/

namespace Parallel.Rounds

/-- Small weights and a small error leave the clamps nothing to do. -/
theorem noClamp_of_budget {p : Rounds ℝ G} {r : Round} (h : p.Ok) {w d : ℝ}
    (hb : p.axisX.Budget w) (he : |(p.axisX.evaluate (p.rewardX r)).error| ≤ d) (hd : d ≤ 1)
    (hw : w + 50 / 99 * d ≤ 1) :
    p.NoClamp r ∧ (p.round r).axisX.Budget (w + 50 / 99 * d) := by
  have hn : |(noise (α := ℝ) p.master.gen).1.x| ≤ 1 := abs_range_le _
  have hvalued : (p.axisX.evaluate (p.rewardX r)).Budget w :=
    ⟨hb.rate, hb.trace, hb.critic, hb.actor⟩
  have hround : (p.round r).axisX.Budget (w + 50 / 99 * d) := by
    rw [round_axisX h (he.trans hd)]
    exact hvalued.learn he hn
  refine ⟨⟨?_, fun i => ?_, fun i => ?_⟩, hround⟩
  · rw [h.error_eq]
    exact he.trans hd
  · exact (hround.abs_mul_rate_le i).1.trans hw
  · exact (hround.abs_mul_rate_le i).2.trans hw

theorem start_budget {w : Fin nMFM → Weights ℝ} {c : ℝ}
    (hw : ∀ i, |(w i).vX| ≤ c ∧ |(w i).theta| ≤ c) : (start ℝ G w).axisX.Budget c where
  rate i := by
    rw [show (start ℝ G w).axisX.rate i = 0 from (start_silent w i).1]
    exact ⟨le_rfl, zero_le_one⟩
  trace i := by
    rw [show (start ℝ G w).axisX.trace i = 0 from (start_silent w i).2]
    exact ⟨le_rfl, by norm_num⟩
  critic i := (hw i).1
  actor i := (hw i).2

/-- Nothing has fired yet, ... -/
theorem start_value (w : Fin nMFM → Weights ℝ) : (start ℝ G w).axisX.value = 0 := by
  have hf : ∀ i, (start ℝ G w).axisX.rate i = 0 := fun i => (start_silent w i).1
  simp [Axis.value, Axis.mean, hf]

/-- ... so the first error is the reward. -/
theorem start_error (w : Fin nMFM → Weights ℝ) (reward : ℝ) :
    ((start ℝ G w).axisX.evaluate reward).error = reward := by
  have hold : (start ℝ G w).axisX.oldValue = 0 := by
    have h : (start ℝ G w).axisX.oldValue = 0.0 := rfl
    norm_num [h]
  rw [Axis.evaluate, start_value, hold]
  simp

/-- In the first round no clamp can matter: the initial weights are small. -/
theorem noClamp_start {w : Fin nMFM → Weights ℝ} (hw : ∀ i, |(w i).vX| ≤ 0.1 ∧ |(w i).theta| ≤ 0.1)
    (r : Round) : (start ℝ G w).NoClamp r := by
  refine (noClamp_of_budget (coupled_start w).ok (start_budget hw) ?_ le_rfl (by norm_num)).1
  rw [start_error]
  exact BallParams.abs_rX_le _

end Parallel.Rounds

theorem Parallel.Rounds.start_center (w : Fin Parallel.nMFM → Weights ℝ) (i : Fin Parallel.nMFM)
    {chipID coreID : Uint} (hid : Parallel.slaves.getD i (0, 0) = (chipID, coreID))
    (hs : ¬Parallel.Core.IsMaster chipID coreID) :
    ((Parallel.Rounds.start ℝ G w).slave i).center = centerOf chipID coreID := by
  have hc : ((Parallel.Rounds.start ℝ G w).slave i).center =
    (Parallel.Core.cMain ℝ G (Parallel.slaves.getD i (0, 0)).1 (Parallel.slaves.getD i (0, 0)).2).center := rfl
  rw [hc, hid]
  exact (Parallel.Core.cMain_slave hs).2.2.1

/-- The populations fire at the first tick, the one at the left edge for sure. -/
theorem first_value_pos (w : Fin Parallel.nMFM → Weights ℝ) (hw : ∀ i, 0 < (w i).vX) :
    0 < ((sequentialStart ℝ G w).axisX.fire (sequentialStart ℝ G w).centerX
      (sequentialStart ℝ G w).ball.pos.x).value := by
  have hc : Coupled (Parallel.Rounds.start ℝ G w) (sequentialStart ℝ G w) := coupled_start w
  have hpos : (sequentialStart ℝ G w).ball.pos.x = -1 := by
    have h : (sequentialStart ℝ G w).ball.pos.x = -1.0 := rfl
    norm_num [h]
  have hrate : ∀ i, ((sequentialStart ℝ G w).axisX.fire (sequentialStart ℝ G w).centerX
      (sequentialStart ℝ G w).ball.pos.x).rate i =
        activation |-1 - ((Parallel.Rounds.start ℝ G w).slave i).center.x| / 2 := by
    intro i
    have hf : (sequentialStart ℝ G w).axisX.rate i = 0 := by
      rw [hc.axisX]
      exact (Parallel.Rounds.start_silent w i).1
    have hcenter : (sequentialStart ℝ G w).centerX i =
        ((Parallel.Rounds.start ℝ G w).slave i).center.x := congrArg Vector2d.x (hc.center i)
    simp only [Axis.fire, hf, tauM_eq, hpos, hcenter]
    ring
  have hcritic : ((sequentialStart ℝ G w).axisX.fire (sequentialStart ℝ G w).centerX
      (sequentialStart ℝ G w).ball.pos.x).critic = fun i => (w i).vX := rfl
  have hedge : 0 < activation |-1 - ((Parallel.Rounds.start ℝ G w).slave ⟨31, by decide⟩).center.x| := by
    have hcenter : ((Parallel.Rounds.start ℝ G w).slave ⟨31, by decide⟩).center = centerOf 256 3 :=
      Parallel.Rounds.start_center w _ (by decide) (by decide)
    rw [hcenter]
    exact activation_256_3_pos
  have hcard : (0 : ℝ) < (Fintype.card (Fin Parallel.nMFM) : ℝ) := by
    rw [Fintype.card_fin]
    norm_num [Parallel.nMFM]
  rw [Axis.value, Axis.mean, hcritic]
  refine div_pos (Finset.sum_pos' (fun i _ => ?_) ⟨⟨31, by decide⟩, Finset.mem_univ _, ?_⟩) hcard
  · rw [hrate]
    exact mul_nonneg (hw i).le (div_nonneg (activation_nonneg _) (by norm_num))
  · rw [hrate]
    exact mul_pos (hw _) (by linarith)

/-- So in its own order the program does not compute what the rounds compute. -/
theorem first_tick_error_ne {w : Fin Parallel.nMFM → Weights ℝ}
    (hw : ∀ i, |(w i).vX| ≤ 0.1 ∧ |(w i).theta| ≤ 0.1) (hpos : ∀ i, 0 < (w i).vX) (r : Round) :
    ((Parallel.Rounds.start ℝ G w).beforeMove r).errorX ≠ ((sequentialStart ℝ G w).tick r).errorX := by
  have hc : Coupled (Parallel.Rounds.start ℝ G w) (sequentialStart ℝ G w) := coupled_start w
  have hold : (sequentialStart ℝ G w).axisX.oldValue = 0 := by
    rw [hc.axisX]
    have h : (Parallel.Rounds.start ℝ G w).axisX.oldValue = 0.0 := rfl
    norm_num [h]
  have hround : ((Parallel.Rounds.start ℝ G w).beforeMove r).errorX =
      (Parallel.Rounds.start ℝ G w).rewardX r := by
    have hle := (Parallel.Rounds.noClamp_start (G := G) hw r).error_le hc.ok
    rw [Parallel.Rounds.beforeMove_error hc.ok hle, Parallel.Rounds.start_error]
  have htick : ((sequentialStart ℝ G w).tick r).errorX = (Parallel.Rounds.start ℝ G w).rewardX r +
      gamma * (invDeltaTime * ((sequentialStart ℝ G w).axisX.fire (sequentialStart ℝ G w).centerX
        (sequentialStart ℝ G w).ball.pos.x).value) := by
    have hold' : (sequentialStart ℝ G w).oldVX = 0 := hold
    rw [Sequential.State.tick, Sequential.State.learn_errorX]
    simp only [hold', sub_zero]
    rfl
  have hvalue := first_value_pos (G := G) w hpos
  rw [hround, htick, gamma_eq, invDeltaTime_eq]
  intro h
  linarith

/-! ## Rounds at the left edge

The ball is seen at (124, 60), where the reward is 1/53. Small weights then stay
small for three rounds, and the population at the edge fires in each of them. -/

namespace Parallel.Rounds

/-- A round at the left edge. -/
def edge (t : Nat) : Round := ⟨124, 60, t⟩

theorem normalizedPos_edge (t : Nat) :
    (BallParams.normalizedPos (edge t).xPos.toInt (edge t).yPos.toInt : Vector2d ℝ) =
      ⟨-52 / 53, 0⟩ := by
  have hx : (edge t).xPos.toInt = 124 := rfl
  have hy : (edge t).yPos.toInt = 60 := rfl
  rw [hx, hy]
  refine BallParams.normalizedPos_of_mem ?_ ?_ ?_
  all_goals norm_num [vNorm, aX, bX, aY, bY, ballPosXMax, ballPosXMin, ballPosXCenter, ballPosYMax,
    ballPosYMin, ballPosYCenter]

/-- Before the first refresh of the speed, with weights between 1/100 and `w`. -/
structure Early (w : ℝ) (p : Rounds ℝ G) : Prop where
  ok : p.Ok
  budget : p.axisX.Budget w
  low : ∀ i, 1 / 100 ≤ p.axisX.critic i
  spXTerm : p.master.ball.spXTerm = 0
  left : (p.slave ⟨31, by decide⟩).center = centerOf 256 3

omit [Prng G] in
theorem Early.value_mem {p : Rounds ℝ G} {w : ℝ} (h : Early w p) :
    0 ≤ p.axisX.value ∧ p.axisX.value ≤ w := by
  have hle := Axis.abs_mean_le fun i => (h.budget.abs_mul_rate_le i).1
  refine ⟨div_nonneg (Finset.sum_nonneg fun i _ => ?_) (Nat.cast_nonneg _), (abs_le.mp hle).2⟩
  have hlow := h.low i
  exact mul_nonneg (by linarith) (h.budget.rate i).1

omit [Prng G] in
theorem Early.ball {p : Rounds ℝ G} {w : ℝ} (h : Early w p) {t : Nat}
    (ht : t % speedAveragerStep ≠ 0) (x y : Int) :
    (p.master.ball.normalizeBallParams x y t).spXTerm = 0 := by
  obtain ⟨hsp, -, -⟩ := BallParams.normalizeBallParams_speed x y t p.master.ball
  rw [hsp, BallParams.computeSpeed_of_not_dvd ht]
  exact h.spXTerm

omit [Prng G] in
theorem Early.rewardX {p : Rounds ℝ G} {w : ℝ} (h : Early w p) {t : Nat}
    (ht : t % speedAveragerStep ≠ 0) : p.rewardX (edge t) = 1 / 53 := by
  have hsp : (p.master.ball.normalizeBallParams (edge t).xPos.toInt (edge t).yPos.toInt
      (edge t).simTime).spXTerm = 0 := h.ball ht _ _
  have habs : |(-52 / 53 : ℝ)| = 52 / 53 := by norm_num [abs_of_neg]
  have hr : (1.0 - 52 / 53 - 0 : ℝ) = 1 / 53 := by norm_num
  rw [Rounds.rewardX, BallParams.rX, BallParams.rPosX, hsp, BallParams.normalizeBallParams_pos,
    normalizedPos_edge, fAbs_eq_abs, habs, hr]
  exact range_of_mem (by norm_num) (by norm_num)

/-- A round with an error between 0 and `d`: no weight of the critic falls, and
the population at the edge fires. -/
theorem Early.round {p : Rounds ℝ G} {w d : ℝ} (h : Early w p) {t : Nat}
    (ht : t % speedAveragerStep ≠ 0) (h0 : 0 ≤ (p.axisX.evaluate (1 / 53)).error)
    (hd : (p.axisX.evaluate (1 / 53)).error ≤ d) (hd1 : d ≤ 1) (hw : w + 50 / 99 * d ≤ 1) :
    p.NoClamp (edge t) ∧ Early (w + 50 / 99 * d) (p.round (edge t)) ∧
      (p.round (edge t)).axisX.oldValue = 10 * p.axisX.value ∧
      0 < (p.round (edge t)).axisX.rate ⟨31, by decide⟩ := by
  have habs : |(p.axisX.evaluate (p.rewardX (edge t))).error| ≤ d := by
    rw [h.rewardX ht, abs_of_nonneg h0]
    exact hd
  obtain ⟨hclamp, hbudget⟩ := noClamp_of_budget h.ok h.budget habs hd1 hw
  have hax : (p.round (edge t)).axisX = (p.axisX.evaluate (1 / 53)).learn
      (fun i => (p.slave i).center.x) (p.axisX.evaluate (1 / 53)).error (-52 / 53)
      (noise p.master.gen).1.x := by
    have hstep := round_axisX h.ok (habs.trans hd1)
    rw [h.rewardX ht, normalizedPos_edge] at hstep
    exact hstep
  have hcenter := (answer_spec (edge t) p.master.nextCounter (p.beforeMove (edge t)).errorX
    (p.beforeMove (edge t)).errorY (p.slave ⟨31, by decide⟩)).2.2.2.2.2
  refine ⟨hclamp, ⟨round_ok h.ok hclamp, hbudget, fun i => ?_, h.ball ht _ _, hcenter.trans h.left⟩,
    ?_, ?_⟩
  · have htrace := (hbudget.trace i).1
    rw [hax] at htrace ⊢
    rw [Axis.learn_critic]
    have hlow := h.low i
    have hgain : 0 ≤ 1 / 2 * (p.axisX.evaluate (1 / 53)).error := by linarith
    have hprod := mul_nonneg hgain htrace
    exact hlow.trans (le_add_of_nonneg_right hprod)
  · rw [hax]
    have hold : (p.axisX.evaluate (1 / 53)).oldValue = invDeltaTime * p.axisX.value := rfl
    rw [← invDeltaTime_eq]
    exact hold
  · have hrate : (p.round (edge t)).axisX.rate ⟨31, by decide⟩ =
        p.axisX.rate ⟨31, by decide⟩ + (-p.axisX.rate ⟨31, by decide⟩ +
          activation |-52 / 53 - (p.slave ⟨31, by decide⟩).center.x|) * tauM := by
      rw [hax]
      rfl
    have hold := (h.budget.rate ⟨31, by decide⟩).1
    have hact : 0 < activation |-52 / 53 - (centerOf 256 3 : Vector2d ℝ).x| := by
      obtain ⟨h1, h2⟩ := centerOf_256_3_mem
      have hnear : |-52 / 53 - (centerOf 256 3 : Vector2d ℝ).x| ≤ 0.05 :=
        abs_le.mpr ⟨by norm_num at *; linarith, by norm_num at *; linarith⟩
      have hle := le_activation (abs_nonneg (-52 / 53 - (centerOf 256 3 : Vector2d ℝ).x))
      linarith
    rw [hrate, h.left, tauM_eq]
    linarith

omit [Prng G] in
theorem Early.value_pos {p : Rounds ℝ G} {w : ℝ} (h : Early w p)
    (hr : 0 < p.axisX.rate ⟨31, by decide⟩) : 0 < p.axisX.value := by
  have hcard : (0 : ℝ) < (Fintype.card (Fin nMFM) : ℝ) := Nat.cast_pos.mpr Fintype.card_pos
  have hlow : ∀ i, 0 < p.axisX.critic i := fun i => lt_of_lt_of_le (by norm_num) (h.low i)
  refine div_pos (Finset.sum_pos' (fun i _ => ?_) ⟨⟨31, by decide⟩, Finset.mem_univ _, ?_⟩) hcard
  · exact mul_nonneg (hlow i).le (h.budget.rate i).1
  · exact mul_pos (hlow _) hr

theorem start_early {w : Fin nMFM → Weights ℝ}
    (hw : ∀ i, (w i).vX = 1 / 100 ∧ (w i).theta = 1 / 100) : Early (1 / 100) (start ℝ G w) := by
  have habs : |(1 / 100 : ℝ)| ≤ 1 / 100 := by norm_num [abs_of_pos]
  refine ⟨(coupled_start w).ok, start_budget fun i => ?_, fun i => ?_, ?_,
    start_center w _ (by decide) (by decide)⟩
  · rw [(hw i).1, (hw i).2]
    exact ⟨habs, habs⟩
  · exact (hw i).1.ge
  · have h : (start ℝ G w).master.ball.spXTerm = 0.0 := rfl
    norm_num [h]

/-- Three rounds at the edge from weights of 1/100. -/
theorem edge_run {w : Fin nMFM → Weights ℝ}
    (hw : ∀ i, (w i).vX = 1 / 100 ∧ (w i).theta = 1 / 100) :
    0 < (exec Rounds.round (start ℝ G w) [edge 1, edge 2]).master.vX ∧
      Along Rounds.round NoClamp (start ℝ G w) ([edge 1, edge 2] ++ [edge 3]) := by
  have hearly := start_early (G := G) hw
  have hstep : ∀ p : Rounds ℝ G, (p.axisX.evaluate (1 / 53)).error =
      1 / 53 + 1 / 100 * (10 * p.axisX.value) - p.axisX.oldValue := by
    intro p
    rw [← gamma_eq, ← invDeltaTime_eq]
    rfl
  have herror : ((start ℝ G w).axisX.evaluate (1 / 53)).error = 1 / 53 := start_error w _
  obtain ⟨hclamp, hearly1, hold1, -⟩ := hearly.round (t := 1) (d := 1 / 50) (by decide)
    (by rw [herror]; norm_num) (by rw [herror]; norm_num) (by norm_num) (by norm_num)
  rw [start_value, mul_zero] at hold1
  -- the second error adds a tenth of the first value
  obtain ⟨hv0, hv1⟩ := hearly1.value_mem
  have herror1 := hstep ((start ℝ G w).round (edge 1))
  rw [hold1] at herror1
  obtain ⟨hclamp1, hearly2, hold2, hfire⟩ := hearly1.round (t := 2) (d := 1 / 40) (by decide)
    (by rw [herror1]; linarith) (by rw [herror1]; linarith) (by norm_num) (by norm_num)
  -- the third also subtracts ten times that value
  obtain ⟨hv2, hv3⟩ := hearly2.value_mem
  have herror2 := hstep (((start ℝ G w).round (edge 1)).round (edge 2))
  rw [hold2] at herror2
  have habs : |((((start ℝ G w).round (edge 1)).round (edge 2)).axisX.evaluate
      ((((start ℝ G w).round (edge 1)).round (edge 2)).rewardX (edge 3))).error| ≤ 1 / 4 := by
    rw [hearly2.rewardX (by decide), herror2]
    exact abs_le.mpr ⟨by linarith, by linarith⟩
  obtain ⟨hclamp2, -⟩ := noClamp_of_budget hearly2.ok hearly2.budget habs (by norm_num) (by norm_num)
  refine ⟨?_, hclamp, hclamp1, hclamp2, trivial⟩
  show 0 < (((start ℝ G w).round (edge 1)).round (edge 2)).master.vX
  rw [hearly2.ok.vX_eq]
  exact hearly2.value_pos hfire

end Parallel.Rounds

/-- In every lossless run of rounds in which no clamp changes a value, the error
and the output of every tick are those of the sequential functions, called in
the order of the rounds from the same start. -/
theorem rounds_eq_reordered (w : Fin Parallel.nMFM → Weights ℝ) (rs : List Round) (r : Round)
    (h : Along Parallel.Rounds.round Parallel.Rounds.NoClamp (Parallel.Rounds.start ℝ G w) (rs ++ [r])) :
    let p := exec Parallel.Rounds.round (Parallel.Rounds.start ℝ G w) rs
    let s := exec Sequential.State.reordered (sequentialStart ℝ G w) rs
    (p.beforeMove r).errorX = (s.reorderedMove r).errorX ∧
      p.theta r = (s.reorderedMove r).actorOutputs.1 := by
  intro p s
  obtain ⟨hrs, hr, _⟩ := along_append.mp h
  have hc : Coupled p s := exec_simulation (fun _ _ _ hR hQ => hR.step hQ) (coupled_start w) hrs
  have hax := s.reorderedMove_axisX r
  rw [hc.axisX, hc.ball] at hax
  constructor
  · rw [Parallel.Rounds.beforeMove_error hc.ok (hr.error_le hc.ok)]
    exact (congrArg Axis.error hax).symm
  · have hn : (s.reorderedMove r).n = (noise s.gen).1 := rfl
    rw [Parallel.Rounds.theta_eq hc.ok, Sequential.State.actorOutputs_eq, hax, hn, hc.gen]
    rfl

/-- The third tick at the left edge, with all weights 1/100 at the start: the
master holds contributions of populations that have fired and learned twice. -/
theorem rounds_eq_reordered_third :
    let w : Fin Parallel.nMFM → Weights ℝ := fun _ => ⟨0.01, 0.01, 0.01, 0.01⟩
    let rs := [Parallel.Rounds.edge 1, Parallel.Rounds.edge 2]
    let p := exec Parallel.Rounds.round (Parallel.Rounds.start ℝ MuslRand w) rs
    let s := exec Sequential.State.reordered (sequentialStart ℝ MuslRand w) rs
    0 < p.master.vX ∧
      (p.beforeMove (Parallel.Rounds.edge 3)).errorX =
        (s.reorderedMove (Parallel.Rounds.edge 3)).errorX ∧
      p.theta (Parallel.Rounds.edge 3) =
        (s.reorderedMove (Parallel.Rounds.edge 3)).actorOutputs.1 := by
  intro w rs p s
  have hw : ∀ i, (w i).vX = 1 / 100 ∧ (w i).theta = 1 / 100 := fun i => by norm_num [w]
  obtain ⟨hpos, halong⟩ := Parallel.Rounds.edge_run (G := MuslRand) hw
  exact ⟨hpos, rounds_eq_reordered w rs (Parallel.Rounds.edge 3) halong⟩

/-- In its own order the sequential program already values the populations that
it fires at the first tick, which the rounds value at the second. -/
theorem round_error_ne_tick_error :
    let p := Parallel.Rounds.start ℝ MuslRand fun _ => ⟨0.1, 0.1, 0.1, 0.1⟩
    let s := sequentialStart ℝ MuslRand fun _ => ⟨0.1, 0.1, 0.1, 0.1⟩
    p.NoClamp ⟨0, 0, 1⟩ ∧ (p.beforeMove ⟨0, 0, 1⟩).errorX ≠ (s.tick ⟨0, 0, 1⟩).errorX := by
  intro p s
  have hw : |(0.1 : ℝ)| ≤ 0.1 := by norm_num [abs_of_pos]
  have hp : p.NoClamp ⟨0, 0, 1⟩ := Parallel.Rounds.noClamp_start (fun _ => ⟨hw, hw⟩) ⟨0, 0, 1⟩
  refine ⟨hp, ?_⟩
  exact first_tick_error_ne (fun _ => ⟨hw, hw⟩) (fun _ => by norm_num) ⟨0, 0, 1⟩

end BallController
