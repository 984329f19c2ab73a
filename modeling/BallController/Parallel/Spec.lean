import BallController.Parallel.Controller

/-! What each function of the parallel program computes and which globals it
keeps. -/

namespace BallController.Parallel.Core
open Lib Spin1Math

variable {G : Type}

/-! ## Sums over the reports -/

theorem vX_eq (c : Core ℝ G) : c.vX = Axis.mean c.vXArray := by
  unfold vX
  rw [forLoop_add (fun i => c.vXArray i), Axis.sum_div_eq_mean]

theorem vY_eq (c : Core ℝ G) : c.vY = 0 := by
  norm_num [vY]

theorem actorMeans_eq (c : Core ℝ G) :
    c.actorMeans = (Axis.mean c.aThetaArray, Axis.mean c.aPsiArray) := by
  have h := forLoop_prod (fun v i => v + c.aThetaArray i) (fun v i => v + c.aPsiArray i)
    (0 : ℝ) (0 : ℝ)
  unfold actorMeans
  simp only [h, forLoop_add (fun i => c.aThetaArray i), forLoop_add (fun i => c.aPsiArray i),
    Axis.sum_div_eq_mean]

/-! ## The tick of the master -/

/-- The errors leave `updateError` clamped. -/
theorem updateError_error_mem (x y : Uint) (t : Nat) (c : Core ℝ G) :
    |(c.updateError x y t).errorX| ≤ 1 ∧ |(c.updateError x y t).errorY| ≤ 1 :=
  ⟨abs_range_le _, abs_range_le _⟩

variable [Prng G]

theorem move_fst (c : Core ℝ G) : c.move.1 = c.drawNoise.send (sendNormMotorCommand
    (range c.drawNoise.actorOutputs.1 (-1.0) 1.0) (range c.drawNoise.actorOutputs.2 (-1.0) 1.0)) :=
  rfl

/-! A tick of an unbalanced master calls `updateError`, `move` and `send_err`;
up to `send_err` it keeps these globals. -/

@[simp] theorem beforeSend_tracker (t : Nat) (c : Core ℝ G) :
    (c.beforeSend t).tracker = c.tracker := rfl

@[simp] theorem beforeSend_counter (t : Nat) (c : Core ℝ G) :
    (c.beforeSend t).counter = c.counter := rfl

theorem beforeSend_sent (t : Nat) (c : Core ℝ G) : (c.beforeSend t).sent = c.sent ++
    [sendNormMotorCommand (range (c.beforeMove t).drawNoise.actorOutputs.1 (-1.0) 1.0)
      (range (c.beforeMove t).drawNoise.actorOutputs.2 (-1.0) 1.0)] := rfl

theorem beforeSend_error_mem (t : Nat) (c : Core ℝ G) :
    |(c.beforeSend t).errorX| ≤ 1 ∧ |(c.beforeSend t).errorY| ≤ 1 :=
  updateError_error_mem _ _ t c

theorem update_frame {β : Type} (f : Core ℝ G → β)
    (hf : ∀ c : Core ℝ G, f { c with state := .saved, timerOn := false } = f c) (t : Nat)
    (c : Core ℝ G) :
    f (c.update t) = f (if c.state = .unbalanced then
      (c.beforeSend t).sendErr (toUint c.tracker.xPos) (toUint c.tracker.yPos) else c) := by
  unfold update
  generalize (if c.state = .unbalanced then
      (c.beforeSend t).sendErr (toUint c.tracker.xPos) (toUint c.tracker.yPos) else c) = u
  dsimp only
  split
  · exact hf u
  · rfl

/-! ## The slaves -/

/-- The critic of the y axis after an ERROR packet. -/
theorem eventNode_fY_wVY {key : Uint} {c : Core ℝ G} (h : IsNewError key c) (payload : Uint)
    {p : Vector2d ℝ}
    (hp : BallParams.normalizedPos (errPos key).1 (errPos key).2 = p) :
    (c.eventNode key payload).fY = c.fY + (-c.fY + activation |p.y - c.center.y|) * tauM ∧
      (c.eventNode key payload).wVY = c.wVY + learningRateV * errY key payload *
        (lambda * gamma * c.eY + (c.eventNode key payload).fY) := by
  subst hp
  rw [eventNode, if_pos h]
  refine ⟨?_, rfl⟩
  simp only [sendUpd, updateV, updateA, updateABody, drawNoise, mfm, recErr, send, vSub,
    BallParams.normalizeBallParams_pos, fAbs_eq_abs, activation]

/-! ## The start -/

theorem initNetwork_frame {β : Type} (f : Core ℝ G → β)
    (hMFM : ∀ c : Core ℝ G, f (initMFM c) = f c) (hp : ∀ c : Core ℝ G, f (initParams c) = f c)
    (chipIDs coreIDs : Uint) (c : Core ℝ G) :
    f (c.initNetwork chipIDs coreIDs) = f { c with
      chipID := chipIDs
      coreID := coreIDs
      ball := { c.ball with pos := ⟨-1.0, 0.0⟩, oldPos := ⟨-1.0, 0.0⟩, speed := ⟨0.0, 0.0⟩ }
      n := ⟨0.0, 0.0⟩
      gen := Prng.srand (coreNb (chipYOf chipIDs) (chipXOf chipIDs) coreIDs + 1) } := by
  rw [initNetwork, hp, hMFM]

theorem cMain_id (chipID coreID : Uint) :
    ((cMain ℝ G chipID coreID).chipID, (cMain ℝ G chipID coreID).coreID) = (chipID, coreID) := by
  have hp : ∀ c : Core ℝ G, ((initParams c).chipID, (initParams c).coreID) = (c.chipID, c.coreID) := by
    intro c
    unfold initParams
    dsimp only
    split <;> rfl
  unfold cMain
  dsimp only
  split_ifs <;> exact initNetwork_frame (fun c => (c.chipID, c.coreID)) (fun _ => rfl) hp _ _ _

/-- Every core starts with silent populations and the same noise. -/
theorem cMain_fresh (chipID coreID : Uint) :
    ((cMain ℝ G chipID coreID).fX, (cMain ℝ G chipID coreID).eX) = (0.0, 0.0) ∧
      (cMain ℝ G chipID coreID).gen = Prng.srand 0 := by
  have hp : ∀ c : Core ℝ G, ((initParams c).fX, (initParams c).eX) = (c.fX, c.eX) := by
    intro c
    unfold initParams
    dsimp only
    split <;> rfl
  refine ⟨?_, rfl⟩
  unfold cMain
  dsimp only
  split_ifs <;> exact initNetwork_frame (fun c => (c.fX, c.eX)) (fun _ => rfl) hp _ _ _

/-- What a slave starts with. -/
theorem cMain_slave {chipID coreID : Uint} (h : ¬IsMaster chipID coreID) :
    let g : G := Prng.srand (coreNb (chipYOf chipID) (chipXOf chipID) coreID + 1)
    let c := cMain ℝ G chipID coreID
    c.fY = 0 ∧ c.eY = 0 ∧ c.center = centerOf chipID coreID ∧ c.nodeCounter = 0 ∧ c.sent = [] ∧
      c.wVY = (initWeight (α := ℝ) (initWeight (α := ℝ) g).2).1 := by
  simp only [cMain, initNetwork, initParams, initMFM, globals, if_neg h]
  norm_num

/-- The globals of a slave before its first message. -/
structure SlaveStart (c : Core ℝ G) : Prop where
  simCount : c.simCount = 1
  nodeCounter : c.nodeCounter = 0
  rates : c.fX = 0 ∧ c.fY = 0
  traces : c.eX = 0 ∧ c.eY = 0
  errors : c.errorX = 1 ∧ c.errorY = 1
  pos : c.ball.pos = ⟨-1, 0⟩
  n : c.n = ⟨0, 0⟩
  weights : (|c.wVX| ≤ 1 / 10 ∧ |c.wVY| ≤ 1 / 10) ∧ |c.wATheta| ≤ 1 / 10 ∧ |c.wAPsi| ≤ 1 / 10
  gen : c.gen = Prng.srand 0
  sent : c.sent = []

theorem cMain_slaveStart {chipID coreID : Uint} (h : ¬IsMaster chipID coreID) :
    SlaveStart (cMain ℝ G chipID coreID) := by
  have hw := abs_initWeight_le (α := ℝ) (G := G)
  constructor <;> simp only [cMain, initNetwork, initParams, initMFM, globals, if_neg h, hw] <;>
    norm_num

end BallController.Parallel.Core
