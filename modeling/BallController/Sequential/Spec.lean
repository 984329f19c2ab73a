import BallController.Sequential.Controller

/-! What each function of the sequential program computes, with its loops
resolved. Every later proof cites these equations and none unfolds a loop. The
two axes of the state are two learners in the sense of `Axis`, and the five
steps of a tick act on each as the abstract steps do. -/

namespace BallController.Sequential
open Lib Spin1Math

variable {N : Nat} {G : Type}

namespace State

section Views

variable {α : Type} [Field α] [LinearOrder α] [FloorRing α] [Libm α]

def axisX (s : State N α G) : Axis (Fin N) α where
  rate := s.fX
  trace := s.eXArray
  critic := s.wVXArray
  actor := s.wAThetaArray
  oldValue := s.oldVX
  error := s.errorX

def axisY (s : State N α G) : Axis (Fin N) α where
  rate := s.fY
  trace := s.eYArray
  critic := s.wVYArray
  actor := s.wAPsiArray
  oldValue := s.oldVY
  error := s.errorY

/-- Replace both learners. -/
def withAxes (s : State N α G) (a b : Axis (Fin N) α) : State N α G :=
  { s with
    fX := a.rate, eXArray := a.trace, wVXArray := a.critic, wAThetaArray := a.actor
    oldVX := a.oldValue, errorX := a.error
    fY := b.rate, eYArray := b.trace, wVYArray := b.critic, wAPsiArray := b.actor
    oldVY := b.oldValue, errorY := b.error }

def centerX (s : State N α G) (i : Fin N) : α := (s.center i).x

def centerY (s : State N α G) (i : Fin N) : α := (s.center i).y

/-- The stop condition of `move`. -/
def Stops (simTime : Nat) (s : State N α G) : Prop :=
  simTime > 300 ∧ s.ball.avgPos < 0.15 ∧ s.ball.avgSpeed < 0.03

/-- The normalised command that `move` sends, if it sends one. -/
def motorCommand (simTime : Nat) (s : State N α G) : Option (α × α) :=
  if simTime > 300 ∧ s.ball.avgPos < 0.15 ∧ s.ball.avgSpeed < 0.03 then some (0.0, 0.0)
  else if simTime % resetStep = 0 then
    if vNorm s.ball.pos > 0.6 then some (s.ball.pos.x, s.ball.pos.y) else none
  else some (range s.actorOutputs.1 (-1.0) 1.0, range s.actorOutputs.2 (-1.0) 1.0)

end Views

@[simp] theorem axisX_withAxes (s : State N ℝ G) (a b : Axis (Fin N) ℝ) :
    (s.withAxes a b).axisX = a := rfl

@[simp] theorem axisY_withAxes (s : State N ℝ G) (a b : Axis (Fin N) ℝ) :
    (s.withAxes a b).axisY = b := rfl

/-! ## Sums -/

theorem sum_eq_mean (w φ : CArray N ℝ) :
    forLoop N (fun v i => v + w i * φ i) 0 / (N : ℝ) = Axis.mean fun i => w i * φ i := by
  rw [forLoop_add (fun i => w i * φ i), Axis.sum_div_eq_mean]

theorem vX_eq (s : State N ℝ G) : s.vX = s.axisX.value := sum_eq_mean _ _

theorem vY_eq (s : State N ℝ G) : s.vY = s.axisY.value := sum_eq_mean _ _

theorem actorOutputs_eq (s : State N ℝ G) :
    s.actorOutputs = (s.axisX.output s.n.x, s.axisY.output s.n.y) := by
  have h := forLoop_prod (fun v i => v + s.wAThetaArray i * s.phiMFMX i)
    (fun v i => v + s.wAPsiArray i * s.phiMFMY i) (0 : ℝ) (0 : ℝ)
  unfold actorOutputs
  simp only [h, sum_eq_mean]
  rfl

/-! ## Element-wise loops -/

theorem mfm_eq (s : State N ℝ G) :
    s.mfm = s.withAxes (s.axisX.fire s.centerX s.ball.pos.x)
      (s.axisY.fire s.centerY s.ball.pos.y) := by
  let embed : CArray N (ℝ × ℝ) → State N ℝ G := fun t =>
    { s with fX := fun i => (t i).1, fY := fun i => (t i).2 }
  have h : ∀ t i, mfmBody (embed t) i = embed (t.write i
      ((t i).1 + (-(t i).1 + activation |s.ball.pos.x - (s.center i).x|) * tauM,
       (t i).2 + (-(t i).2 + activation |s.ball.pos.y - (s.center i).y|) * tauM)) := by
    intro t i
    simp only [embed, mfmBody, vSub, fAbs_eq_abs, activation, CArray.map_write]
  exact forLoop_cells embed (fun i (c : ℝ × ℝ) =>
    (c.1 + (-c.1 + activation |s.ball.pos.x - (s.center i).x|) * tauM,
     c.2 + (-c.2 + activation |s.ball.pos.y - (s.center i).y|) * tauM)) h fun i => (s.fX i, s.fY i)

theorem updateV_eq (s : State N ℝ G) :
    s.updateV = s.withAxes s.axisX.learnCritic s.axisY.learnCritic := by
  let embed : CArray N ((ℝ × ℝ) × (ℝ × ℝ)) → State N ℝ G := fun t =>
    { s with
      eXArray := fun i => (t i).1.1, wVXArray := fun i => (t i).1.2
      eYArray := fun i => (t i).2.1, wVYArray := fun i => (t i).2.2 }
  let cell : ℝ → ℝ → ℝ × ℝ → ℝ × ℝ := fun φ δ c =>
    (lambda * gamma * c.1 + φ, c.2 + learningRateV * δ * (lambda * gamma * c.1 + φ))
  have h : ∀ t i, updateVBody (embed t) i = embed (t.write i
      (cell (s.fX i) s.errorX (t i).1, cell (s.fY i) s.errorY (t i).2)) := by
    intro t i
    have hp := fun (g : (ℝ × ℝ) × (ℝ × ℝ) → ℝ) => CArray.map_write g t i
    simp only [embed, cell, updateVBody, phiMFMX, phiMFMY, CArray.write_self, hp (fun c => c.1.1),
      hp (fun c => c.1.2), hp (fun c => c.2.1), hp (fun c => c.2.2)]
  exact forLoop_cells embed (fun i c => (cell (s.fX i) s.errorX c.1, cell (s.fY i) s.errorY c.2)) h
    fun i => ((s.eXArray i, s.wVXArray i), (s.eYArray i, s.wVYArray i))

/-- The loop of `update_A`, for the noise in `n`. -/
theorem updateABody_loop (s : State N ℝ G) :
    forLoop N updateABody s = s.withAxes (s.axisX.learnActor s.n.x) (s.axisY.learnActor s.n.y) := by
  let embed : CArray N (ℝ × ℝ) → State N ℝ G := fun t =>
    { s with wAThetaArray := fun i => (t i).1, wAPsiArray := fun i => (t i).2 }
  have h : ∀ t i, updateABody (embed t) i = embed (t.write i
      ((t i).1 - learningRateA * s.errorX * s.n.x * s.fX i,
       (t i).2 - learningRateA * s.errorY * s.n.y * s.fY i)) := by
    intro t i
    simp only [embed, updateABody, phiMFMX, phiMFMY, CArray.map_write]
  exact forLoop_cells embed (fun i (c : ℝ × ℝ) =>
    (c.1 - learningRateA * s.errorX * s.n.x * s.fX i,
     c.2 - learningRateA * s.errorY * s.n.y * s.fY i)) h fun i => (s.wAThetaArray i, s.wAPsiArray i)

/-! ## The TD error -/

theorem updateError_eq (xPos yPos : Int) (simTime : Nat) (s : State N ℝ G) :
    s.updateError xPos yPos simTime =
      { s with ball := s.ball.normalizeBallParams xPos yPos simTime }.withAxes
        (s.axisX.evaluate (s.ball.normalizeBallParams xPos yPos simTime).rX)
        (s.axisY.evaluate (s.ball.normalizeBallParams xPos yPos simTime).rY) := by
  unfold updateError
  simp only [vX_eq, vY_eq]
  rfl

/-! ## The command -/

/-- `move` sends one packet at most and changes nothing else. -/
theorem move_fst (simTime : Nat) (s : State N ℝ G) :
    (s.move simTime).1 = { s with sent := s.sent ++
      (s.motorCommand simTime).toList.map fun c => sendNormMotorCommand c.1 c.2 } := by
  unfold move motorCommand
  split_ifs <;> simp [send]

theorem move_snd (simTime : Nat) (s : State N ℝ G) :
    (s.move simTime).2 = .balanced ↔ s.Stops simTime := by
  unfold move Stops
  split_ifs <;> simp_all

theorem move_snd_of_not_stops {t : Nat} {s : State N ℝ G} (h : ¬s.Stops t) :
    (s.move t).2 = .unbalanced := by
  unfold Stops at h
  unfold move
  split_ifs <;> rfl

/-! ## What a tick keeps -/

variable [Prng G]

theorem updateA_eq (s : State N ℝ G) :
    s.updateA = s.drawNoise.withAxes (s.axisX.learnActor s.drawNoise.n.x)
      (s.axisY.learnActor s.drawNoise.n.y) := updateABody_loop s.drawNoise

@[simp] theorem beforeMove_tracker (s : State N ℝ G) : s.beforeMove.tracker = s.tracker := by
  simp [beforeMove, updateA_eq, mfm_eq, withAxes, drawNoise]

@[simp] theorem beforeMove_ball (s : State N ℝ G) : s.beforeMove.ball = s.ball := by
  simp [beforeMove, updateA_eq, mfm_eq, withAxes, drawNoise]

@[simp] theorem beforeMove_sent (s : State N ℝ G) : s.beforeMove.sent = s.sent := by
  simp [beforeMove, updateA_eq, mfm_eq, withAxes, drawNoise]

@[simp] theorem beforeMove_timerOn (s : State N ℝ G) : s.beforeMove.timerOn = s.timerOn := by
  simp [beforeMove, updateA_eq, mfm_eq, withAxes, drawNoise]

@[simp] theorem beforeError_ball (t : Nat) (s : State N ℝ G) : (s.beforeError t).ball = s.ball := by
  simp [beforeError, move_fst]

@[simp] theorem learn_tracker (t : Nat) (s : State N ℝ G) : (s.learn t).tracker = s.tracker := by
  simp [learn, updateV_eq, updateError_eq, withAxes, beforeError, move_fst]

@[simp] theorem learn_timerOn (t : Nat) (s : State N ℝ G) : (s.learn t).timerOn = s.timerOn := by
  simp [learn, updateV_eq, updateError_eq, withAxes, beforeError, move_fst]

@[simp] theorem learn_ball (t : Nat) (s : State N ℝ G) : (s.learn t).ball =
    s.ball.normalizeBallParams s.tracker.xPos s.tracker.yPos t := by
  simp [learn, updateV_eq, updateError_eq, withAxes, beforeError, move_fst]

@[simp] theorem learn_state (t : Nat) (s : State N ℝ G) :
    (s.learn t).state = (s.beforeMove.move t).2 := by
  simp [learn, updateV_eq, updateError_eq, withAxes, beforeError, move_fst]

@[simp] theorem learn_sent (t : Nat) (s : State N ℝ G) : (s.learn t).sent = s.sent ++
    (s.beforeMove.motorCommand t).toList.map fun c => sendNormMotorCommand c.1 c.2 := by
  simp [learn, updateV_eq, updateError_eq, withAxes, beforeError, move_fst]

theorem beforeMove_axes (s : State N ℝ G) :
    s.beforeMove.axisX =
        (s.axisX.fire s.centerX s.ball.pos.x).learnActor s.beforeMove.n.x ∧
      s.beforeMove.axisY =
        (s.axisY.fire s.centerY s.ball.pos.y).learnActor s.beforeMove.n.y := by
  rw [beforeMove, updateA_eq, mfm_eq]
  exact ⟨rfl, rfl⟩

/-- `move` sends packets and `updateError` moves the ball; the rest of a tick acts
on the axes. -/
theorem learn_eq (t : Nat) (s : State N ℝ G) :
    let b := s.ball.normalizeBallParams s.tracker.xPos s.tracker.yPos t
    s.learn t = { s.beforeError t with ball := b }.withAxes
      (s.beforeMove.axisX.evaluate b.rX).learnCritic
      (s.beforeMove.axisY.evaluate b.rY).learnCritic := by
  have hball : (s.beforeError t).ball.normalizeBallParams (s.beforeError t).tracker.xPos
      (s.beforeError t).tracker.yPos t =
        s.ball.normalizeBallParams s.tracker.xPos s.tracker.yPos t := by
    have htracker : (s.beforeError t).tracker = s.tracker := by
      rw [beforeError, move_fst]
      exact beforeMove_tracker s
    rw [htracker, beforeError_ball]
  have hx : (s.beforeError t).axisX = s.beforeMove.axisX := by
    rw [beforeError, move_fst]
    rfl
  have hy : (s.beforeError t).axisY = s.beforeMove.axisY := by
    rw [beforeError, move_fst]
    rfl
  rw [learn, updateV_eq, updateError_eq, hball, hx, hy]
  rfl

/-- The four steps that a tick takes on the x axis, in the program's own order. -/
theorem learn_axisX (t : Nat) (s : State N ℝ G) :
    (s.learn t).axisX = (((s.axisX.fire s.centerX s.ball.pos.x).learnActor
      s.beforeMove.n.x).evaluate (s.ball.normalizeBallParams s.tracker.xPos s.tracker.yPos t).rX
        ).learnCritic := by
  rw [learn_eq, ← (beforeMove_axes s).1]
  rfl

/-- The error of a tick. -/
theorem learn_errorX (t : Nat) (s : State N ℝ G) :
    (s.learn t).errorX = (s.ball.normalizeBallParams s.tracker.xPos s.tracker.yPos t).rX +
      gamma * (invDeltaTime * (s.axisX.fire s.centerX s.ball.pos.x).value) - s.oldVX := by
  have herror : (s.learn t).errorX = (s.learn t).axisX.error := rfl
  rw [herror, learn_axisX]
  rfl

theorem update_frame {β : Type} (f : State N ℝ G → β)
    (hf : ∀ s : State N ℝ G, f { s with state := .saved, timerOn := false } = f s) (t : Nat)
    (s : State N ℝ G) :
    f (s.update t) = f (if s.state = .unbalanced then s.learn t else s) := by
  unfold update
  generalize (if s.state = .unbalanced then s.learn t else s) = u
  dsimp only
  split
  · exact hf u
  · rfl

/-! ## The start -/

/-- `init_network` touches weights, centres, buffers and the generator, and
sets the ball and the noise. -/
theorem initNetwork_frame {β : Type} (f : State N ℝ G → β)
    (hMFM : ∀ chipID coreID (s : State N ℝ G), f (initMFM chipID coreID s) = f s)
    (hw : ∀ (s : State N ℝ G) i, f (initWeights s i) = f s)
    (hb : ∀ (s : State N ℝ G) i, f (initBuffers s i) = f s) (noiseSeed : Uint) (s : State N ℝ G) :
    f (s.initNetwork noiseSeed) = f { s with
      ball := { s.ball with pos := ⟨-1.0, 0.0⟩, oldPos := ⟨-1.0, 0.0⟩, speed := ⟨0.0, 0.0⟩ }
      n := ⟨0.0, 0.0⟩
      gen := Prng.srand noiseSeed } := by
  unfold initNetwork initParams
  rw [forLoop_frame hb, forLoop_frame hw]
  generalize initPairs = l
  generalize ({ s with
      ball := { s.ball with pos := ⟨-1.0, 0.0⟩, oldPos := ⟨-1.0, 0.0⟩, speed := ⟨0.0, 0.0⟩ }
      n := ⟨0.0, 0.0⟩
      gen := Prng.srand noiseSeed } : State N ℝ G) = s
  induction l generalizing s with
  | nil => rfl
  | cons p l ih => rw [List.foldl_cons, ih, hMFM]

@[simp] theorem cMain_tracker (noiseSeed : Uint) :
    (cMain N ℝ G noiseSeed).tracker = Tracker.init :=
  initNetwork_frame (fun s => s.tracker) (fun _ _ _ => rfl) (fun _ _ => rfl) (fun _ _ => rfl) _ _

@[simp] theorem cMain_state (noiseSeed : Uint) :
    (cMain N ℝ G noiseSeed).state = .unbalanced :=
  initNetwork_frame (fun s => s.state) (fun _ _ _ => rfl) (fun _ _ => rfl) (fun _ _ => rfl) _ _

@[simp] theorem cMain_timerOn (noiseSeed : Uint) : (cMain N ℝ G noiseSeed).timerOn = true := rfl

@[simp] theorem cMain_sent (noiseSeed : Uint) :
    (cMain N ℝ G noiseSeed).sent = startDevices :=
  initNetwork_frame (fun s => s.sent) (fun _ _ _ => rfl) (fun _ _ => rfl) (fun _ _ => rfl) _ _

@[simp] theorem cMain_pos (noiseSeed : Uint) : (cMain N ℝ G noiseSeed).ball.pos = ⟨-1.0, 0.0⟩ :=
  initNetwork_frame (fun s => s.ball.pos) (fun _ _ _ => rfl) (fun _ _ => rfl) (fun _ _ => rfl) _ _

@[simp] theorem cMain_errorX (noiseSeed : Uint) : (cMain N ℝ G noiseSeed).errorX = 1.0 :=
  initNetwork_frame (fun s => s.errorX) (fun _ _ _ => rfl) (fun _ _ => rfl) (fun _ _ => rfl) _ _

@[simp] theorem cMain_fX (noiseSeed : Uint) : (cMain N ℝ G noiseSeed).fX = 0 :=
  initNetwork_frame (fun s => s.fX) (fun _ _ _ => rfl) (fun _ _ => rfl) (fun _ _ => rfl) _ _

@[simp] theorem cMain_eXArray (noiseSeed : Uint) : (cMain N ℝ G noiseSeed).eXArray = 0 :=
  initNetwork_frame (fun s => s.eXArray) (fun _ _ _ => rfl) (fun _ _ => rfl) (fun _ _ => rfl) _ _

@[simp] theorem cMain_oldVX (noiseSeed : Uint) : (cMain N ℝ G noiseSeed).oldVX = 0.0 :=
  initNetwork_frame (fun s => s.oldVX) (fun _ _ _ => rfl) (fun _ _ => rfl) (fun _ _ => rfl) _ _

@[simp] theorem cMain_fY (noiseSeed : Uint) : (cMain N ℝ G noiseSeed).fY = 0 :=
  initNetwork_frame (fun s => s.fY) (fun _ _ _ => rfl) (fun _ _ => rfl) (fun _ _ => rfl) _ _

@[simp] theorem cMain_eYArray (noiseSeed : Uint) : (cMain N ℝ G noiseSeed).eYArray = 0 :=
  initNetwork_frame (fun s => s.eYArray) (fun _ _ _ => rfl) (fun _ _ => rfl) (fun _ _ => rfl) _ _

@[simp] theorem cMain_oldVY (noiseSeed : Uint) : (cMain N ℝ G noiseSeed).oldVY = 0.0 :=
  initNetwork_frame (fun s => s.oldVY) (fun _ _ _ => rfl) (fun _ _ => rfl) (fun _ _ => rfl) _ _

@[simp] theorem cMain_avgIndex (noiseSeed : Uint) : (cMain N ℝ G noiseSeed).ball.avgIndex = 0 :=
  initNetwork_frame (fun s => s.ball.avgIndex) (fun _ _ _ => rfl) (fun _ _ => rfl)
    (fun _ _ => rfl) _ _

end State

/-! ## Runs without camera samples -/

variable [Prng G]

/-- The timer ticks 1 to `n`. -/
def ticks (n : Nat) : List Event := (List.range' 1 n).map Event.tick

theorem ticks_succ (n : Nat) : ticks (n + 1) = ticks n ++ [.tick (n + 1)] := by
  simp [ticks, List.range'_1_concat, Nat.add_comm]

/-- Up to tick 300 nothing stops a run. -/
theorem State.update_early {s : State N ℝ G} (hs : s.state = .unbalanced) {t : Nat} (h0 : 0 < t)
    (h1 : t ≤ 300) : s.update t = s.learn t ∧ (s.learn t).state = .unbalanced := by
  have hl : (s.learn t).state = .unbalanced := by
    rw [State.learn_state]
    exact State.move_snd_of_not_stops fun hstop => absurd hstop.1 (by omega)
  have ht : t % saveStep ≠ 0 := by
    simp only [saveStep]
    omega
  refine ⟨?_, hl⟩
  simp only [State.update, hs, if_true, hl, reduceCtorEq, ht, or_self, if_false]

/-- The run goes on, and the ball is taken to be at `p`. -/
structure Quiet (p : Int × Int) (s : State N ℝ G) : Prop where
  state : s.state = .unbalanced
  timerOn : s.timerOn = true
  tracker : (s.tracker.xPos, s.tracker.yPos) = p

section Quiet

variable {p : Int × Int} {s : State N ℝ G}

theorem Quiet.step (h : Quiet p s) {t : Nat} (h0 : 0 < t) (h1 : t ≤ 300) :
    Sequential.step s (.tick t) = s.learn t :=
  (if_pos h.timerOn).trans (State.update_early h.state h0 h1).1

theorem Quiet.learn (h : Quiet p s) {t : Nat} (h0 : 0 < t) (h1 : t ≤ 300) : Quiet p (s.learn t) where
  state := (State.update_early h.state h0 h1).2
  timerOn := (State.learn_timerOn t s).trans h.timerOn
  tracker := by
    rw [State.learn_tracker]
    exact h.tracker

theorem Quiet.ball (h : Quiet p s) (t : Nat) :
    (s.learn t).ball = s.ball.normalizeBallParams p.1 p.2 t := by
  rw [State.learn_ball, ← h.tracker]

theorem Quiet.tick (h : Quiet p s) {t : Nat} (h0 : 0 < t) (h1 : t ≤ 300) :
    Quiet p (Sequential.step s (.tick t)) ∧
      (Sequential.step s (.tick t)).ball.pos = BallParams.normalizedPos p.1 p.2 := by
  rw [h.step h0 h1]
  refine ⟨h.learn h0 h1, ?_⟩
  rw [h.ball, BallParams.normalizeBallParams_pos]

theorem Quiet.ticks (h : Quiet p s) {n : Nat} (hn : n ≤ 300) :
    Quiet p (exec Sequential.step s (Sequential.ticks n)) := by
  induction n with
  | zero => exact h
  | succ n ih =>
    rw [ticks_succ, exec_concat]
    exact ((ih (by omega)).tick (by omega) hn).1

theorem Quiet.ticks_pos (h : Quiet p s) {n : Nat} (h0 : 0 < n) (hn : n ≤ 300) :
    (exec Sequential.step s (Sequential.ticks n)).ball.pos = BallParams.normalizedPos p.1 p.2 := by
  cases n with
  | zero => exact absurd h0 (lt_irrefl 0)
  | succ n =>
    rw [ticks_succ, exec_concat]
    exact ((h.ticks (by omega)).tick (by omega) hn).2

end Quiet

/-- A tracker that has no sample yet has the ball in the corner. -/
theorem quiet_cMain (noiseSeed : Uint) : Quiet (0, 0) (State.cMain N ℝ G noiseSeed) :=
  ⟨State.cMain_state noiseSeed, State.cMain_timerOn noiseSeed, by rw [State.cMain_tracker]; rfl⟩

end BallController.Sequential
