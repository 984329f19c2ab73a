import BallController.Following
import BallController.Sequential.Init

/-! The two axes are one learner. A tick acts on each axis through one function
of the axis, its centres, its component of the ball and its component of the
noise. A run is then a fold of this function on either axis, and what one axis
learns is decided by its own inputs. -/

namespace BallController
open Lib Spin1Math

namespace Axis

variable {ι : Type} [Fintype ι] {α : Type} [Field α] [LinearOrder α]

/-- What a tick gives to an axis: the position after it, the speed term after it
and the noise. -/
structure Input (α : Type) where
  pos : α
  speedTerm : α
  noise : α

/-- `R(x)` of one axis. -/
def reward (u : Input α) : α := range (1.0 - fAbs u.pos - u.speedTerm) (-1.0) 1.0

/-- One tick of one axis from the position `p` before it, in the order of
`update`, with the clamped actor output. -/
def tick (center : ι → α) (p : α) (u : Input α) (a : Axis ι α) : Axis ι α × α :=
  let b := (a.fire center p).learnActor u.noise
  ((b.evaluate (reward u)).learnCritic, range (b.output u.noise) (-1.0) 1.0)

/-- The ticks of a run of one axis. -/
def ticks (center : ι → α) : α → Axis ι α → List (Input α) → List (Axis ι α × α)
  | _, _, [] => []
  | p, a, u :: us => a.tick center p u :: ticks center u.pos (a.tick center p u).1 us

end Axis

namespace Sequential

section Defs

variable {N : Nat} {α G : Type} [Field α] [LinearOrder α] [FloorRing α] [Libm α] [Prng G]

namespace State

/-- `theta` of the coming tick after the clamp. -/
def theta (s : State N α G) : α := range s.beforeMove.actorOutputs.1 (-1.0) 1.0

def psi (s : State N α G) : α := range s.beforeMove.actorOutputs.2 (-1.0) 1.0

/-- The X inputs of the tick that leads to the state. -/
def inputX (s : State N α G) : Axis.Input α := ⟨s.ball.pos.x, s.ball.spXTerm, s.n.x⟩

def inputY (s : State N α G) : Axis.Input α := ⟨s.ball.pos.y, s.ball.spYTerm, s.n.y⟩

end State

/-- The X inputs of a tick. -/
def inputsX (s : State N α G) : Event → List (Axis.Input α)
  | .camera _ _ => []
  | .tick t => [(step s (.tick t)).inputX]

/-- What a tick leaves on the X axis, with its `theta`. -/
def outputsX (s : State N α G) : Event → List (Axis (Fin N) α × α)
  | .camera _ _ => []
  | .tick t => [((step s (.tick t)).axisX, s.theta)]

/-- Every tick finds the controller balancing. -/
def Unbalanced (s : State N α G) : Event → Prop
  | .camera _ _ => True
  | .tick _ => s.timerOn = true ∧ s.state = .unbalanced

end Defs

variable {N : Nat} {G : Type} [Prng G]

/-! ## One tick -/

namespace State

theorem learn_n (t : Nat) (s : State N ℝ G) : (s.learn t).n = s.beforeMove.n := by
  have hn : (s.beforeError t).n = s.beforeMove.n := by
    rw [beforeError, move_fst]
  rw [learn_eq, ← hn]
  rfl

/-- A tick is the same function on the X and on the Y axis. -/
theorem learn_axes (t : Nat) (s : State N ℝ G) :
    ((s.learn t).axisX, s.theta) = s.axisX.tick s.centerX s.ball.pos.x (s.learn t).inputX ∧
      ((s.learn t).axisY, s.psi) = s.axisY.tick s.centerY s.ball.pos.y (s.learn t).inputY := by
  have hx : (s.learn t).axisX = (s.beforeMove.axisX.evaluate
      (Axis.reward (s.learn t).inputX)).learnCritic := by
    rw [learn_eq]
    rfl
  have hy : (s.learn t).axisY = (s.beforeMove.axisY.evaluate
      (Axis.reward (s.learn t).inputY)).learnCritic := by
    rw [learn_eq]
    rfl
  obtain ⟨hmx, hmy⟩ := beforeMove_axes s
  have hnx : (s.learn t).inputX.noise = s.beforeMove.n.x := congrArg Vector2d.x (learn_n t s)
  have hny : (s.learn t).inputY.noise = s.beforeMove.n.y := congrArg Vector2d.y (learn_n t s)
  constructor
  · rw [hx, theta, actorOutputs_eq, hmx, Axis.tick, hnx]
  · rw [hy, psi, actorOutputs_eq, hmy, Axis.tick, hny]

theorem update_axes {s : State N ℝ G} (hs : s.state = .unbalanced) (t : Nat) :
    ((s.update t).axisX, s.theta) = s.axisX.tick s.centerX s.ball.pos.x (s.update t).inputX ∧
      ((s.update t).axisY, s.psi) = s.axisY.tick s.centerY s.ball.pos.y (s.update t).inputY := by
  have hax := update_frame (fun s => s.axisX) (fun _ => rfl) t s
  have hay := update_frame (fun s => s.axisY) (fun _ => rfl) t s
  have hix := update_frame (fun s => s.inputX) (fun _ => rfl) t s
  have hiy := update_frame (fun s => s.inputY) (fun _ => rfl) t s
  rw [if_pos hs] at hax hay hix hiy
  rw [hax, hay, hix, hiy]
  exact learn_axes t s

theorem update_center (t : Nat) (s : State N ℝ G) : (s.update t).center = s.center := by
  rw [update_frame (fun s => s.center) (fun _ => rfl)]
  split
  · rw [learn_eq, beforeError, move_fst, beforeMove, updateA_eq, mfm_eq]
    rfl
  · rfl

end State

/-! ## Runs -/

/-- The X axis of a run that balances throughout is the fold of its own inputs. -/
theorem outputsX_eq_ticks {s : State N ℝ G} {evs : List Event} (hu : Along step Unbalanced s evs) :
    emitted step outputsX s evs =
      Axis.ticks s.centerX s.ball.pos.x s.axisX (emitted step inputsX s evs) := by
  induction evs generalizing s with
  | nil => rfl
  | cons e evs ih =>
    have hrest := ih hu.2
    cases e with
    | camera key now =>
      have hframe : (step s (.camera key now)).center = s.center ∧
          (step s (.camera key now)).ball = s.ball ∧
          (step s (.camera key now)).axisX = s.axisX := by
        simp only [step, State.cameraEvent]
        split <;> exact ⟨rfl, rfl, rfl⟩
      obtain ⟨hcenter, hball, haxis⟩ := hframe
      have hcx : (step s (.camera key now)).centerX = s.centerX := by
        funext i
        rw [State.centerX, hcenter, State.centerX]
      rw [hcx, hball, haxis] at hrest
      exact hrest
    | tick t =>
      have hstep : step s (.tick t) = s.update t := if_pos hu.1.1
      have hcx : (step s (.tick t)).centerX = s.centerX := by
        funext i
        rw [State.centerX, hstep, State.update_center, State.centerX]
      have htick := (State.update_axes hu.1.2 t).1
      rw [← hstep] at htick
      rw [hcx] at hrest
      show ((step s (.tick t)).axisX, s.theta) :: emitted step outputsX (step s (.tick t)) evs =
        s.axisX.tick s.centerX s.ball.pos.x (step s (.tick t)).inputX ::
          Axis.ticks s.centerX (step s (.tick t)).ball.pos.x
            (s.axisX.tick s.centerX s.ball.pos.x (step s (.tick t)).inputX).1
            (emitted step inputsX (step s (.tick t)) evs)
      rw [← htick, hrest]

/-! ## Two balls in one column -/

/-- Two quiet runs with the same reference of the speed along x and the same
noise. -/
structure SameColumn (p p' : Int × Int) (s s' : State N ℝ G) : Prop where
  left : Quiet p s
  right : Quiet p' s'
  oldPos : s.ball.oldPos.x = s'.ball.oldPos.x
  spXTerm : s.ball.spXTerm = s'.ball.spXTerm
  gen : s.gen = s'.gen

theorem State.learn_noise (t : Nat) (s : State N ℝ G) :
    (s.learn t).n = (noise s.gen).1 ∧ (s.learn t).gen = (noise (α := ℝ) s.gen).2 := by
  have hgen : (s.learn t).gen = (noise (α := ℝ) s.gen).2 := by
    rw [learn_eq, beforeError, move_fst, beforeMove, updateA_eq, mfm_eq]
    rfl
  refine ⟨(learn_n t s).trans ?_, hgen⟩
  rw [beforeMove, updateA_eq, mfm_eq]
  rfl

/-- One call in both runs. -/
theorem normalizeBallParams_column {x y x' y' : Int} {b b' : BallParams ℝ}
    (hx : (BallParams.normalizedPos x y : Vector2d ℝ).x = (BallParams.normalizedPos x' y' : Vector2d ℝ).x)
    (hold : b.oldPos.x = b'.oldPos.x) (hsp : b.spXTerm = b'.spXTerm) (t : Nat) :
    (b.normalizeBallParams x y t).oldPos.x = (b'.normalizeBallParams x' y' t).oldPos.x ∧
      (b.normalizeBallParams x y t).spXTerm = (b'.normalizeBallParams x' y' t).spXTerm := by
  simp only [BallParams.normalizeBallParams, BallParams.averageParams, BallParams.computeSpeed]
  split
  · exact ⟨hx, by simp only [hx, hold]⟩
  · exact ⟨hold, hsp⟩

/-- A tick keeps the two runs alike and gives both X axes the same input. -/
theorem SameColumn.tick {p p' : Int × Int} {s s' : State N ℝ G} (h : SameColumn p p' s s')
    (hx : (BallParams.normalizedPos p.1 p.2 : Vector2d ℝ).x =
      (BallParams.normalizedPos p'.1 p'.2 : Vector2d ℝ).x) {t : Nat} (h0 : 0 < t) (h1 : t ≤ 300) :
    SameColumn p p' (step s (.tick t)) (step s' (.tick t)) ∧
      inputsX s (.tick t) = inputsX s' (.tick t) := by
  obtain ⟨hn, hgen⟩ := s.learn_noise t
  obtain ⟨hn', hgen'⟩ := s'.learn_noise t
  obtain ⟨hold, hsp⟩ := normalizeBallParams_column hx h.oldPos h.spXTerm t
  rw [← h.left.ball t, ← h.right.ball t] at hold hsp
  have hpos : (s.learn t).ball.pos.x = (s'.learn t).ball.pos.x := by
    rw [h.left.ball, h.right.ball, BallParams.normalizeBallParams_pos,
      BallParams.normalizeBallParams_pos, hx]
  rw [inputsX, inputsX, h.left.step h0 h1, h.right.step h0 h1]
  refine ⟨⟨h.left.learn h0 h1, h.right.learn h0 h1, hold, hsp, ?_⟩, ?_⟩
  · rw [hgen, hgen', h.gen]
  · rw [State.inputX, State.inputX, hpos, hsp, hn, hn', h.gen]

theorem SameColumn.inputsX {p p' : Int × Int} {s s' : State N ℝ G} (h : SameColumn p p' s s')
    (hx : (BallParams.normalizedPos p.1 p.2 : Vector2d ℝ).x =
      (BallParams.normalizedPos p'.1 p'.2 : Vector2d ℝ).x) {n : Nat} (hn : n ≤ 300) :
    emitted step Sequential.inputsX s (ticks n) = emitted step Sequential.inputsX s' (ticks n) := by
  refine emitted_simulation (Q := fun e => ∃ t, 0 < t ∧ t ≤ 300 ∧ e = .tick t) ?_ h ?_
  · rintro s s' e hR ⟨t, h0, h1, rfl⟩
    exact hR.tick hx h0 h1
  · intro e he
    obtain ⟨t, ht, rfl⟩ := List.mem_map.mp he
    have hmem := List.mem_range'_1.mp ht
    exact ⟨t, by omega, by omega, rfl⟩

/-- Two first looks, then the ticks. -/
theorem inputsX_column {key key' : Uint} {p p' : Int × Int} (noiseSeed : Uint)
    (hp : Quiet p (run N ℝ G noiseSeed (looks key)))
    (hp' : Quiet p' (run N ℝ G noiseSeed (looks key')))
    (hx : (BallParams.normalizedPos p.1 p.2 : Vector2d ℝ).x =
      (BallParams.normalizedPos p'.1 p'.2 : Vector2d ℝ).x) {n : Nat} (hn : n ≤ 300) :
    emitted step inputsX (State.cMain N ℝ G noiseSeed) (looks key ++ ticks n) =
      emitted step inputsX (State.cMain N ℝ G noiseSeed) (looks key' ++ ticks n) := by
  have hnone : ∀ (key : Uint) (s : State N ℝ G), emitted step inputsX s (looks key) = [] :=
    fun _ _ => rfl
  obtain ⟨-, -, hball, hgen⟩ := looks_frame key (State.cMain N ℝ G noiseSeed)
  obtain ⟨-, -, hball', hgen'⟩ := looks_frame key' (State.cMain N ℝ G noiseSeed)
  have hb := hball.trans hball'.symm
  have hcolumn : SameColumn p p' (run N ℝ G noiseSeed (looks key)) (run N ℝ G noiseSeed (looks key')) :=
    ⟨hp, hp', congrArg (fun b => b.oldPos.x) hb, congrArg (fun b => b.spXTerm) hb,
      hgen.trans hgen'.symm⟩
  rw [emitted_append, emitted_append, hnone, hnone]
  exact hcolumn.inputsX hx hn

theorem Quiet.run_pos {noiseSeed key : Uint} {p : Int × Int}
    (h : Quiet p (run N ℝ G noiseSeed (looks key))) {n : Nat} (h0 : 0 < n) (hn : n ≤ 300) :
    (run N ℝ G noiseSeed (looks key ++ Sequential.ticks n)).ball.pos =
      BallParams.normalizedPos p.1 p.2 := by
  rw [run, exec_append]
  exact h.ticks_pos h0 hn

theorem along_looks_ticks {key : Uint} {p : Int × Int} {s : State N ℝ G}
    (h : Quiet p (exec step s (looks key))) {n : Nat} (hn : n ≤ 300) :
    Along step Unbalanced s (looks key ++ ticks n) := by
  refine along_append.mpr ⟨along_looks (fun _ => trivial) s, ?_⟩
  induction n with
  | zero => trivial
  | succ n ih =>
    rw [ticks_succ]
    have hquiet := h.ticks (show n ≤ 300 by omega)
    exact along_append.mpr ⟨ih (by omega), ⟨hquiet.timerOn, hquiet.state⟩, trivial⟩

/-! ## Two runs -/

theorem cMain_center_eq {H : Type} [Prng H] (noiseSeed noiseSeed' : Uint) :
    (State.cMain N ℝ G noiseSeed).center = (State.cMain N ℝ H noiseSeed').center := by
  have h := State.initNetwork_center noiseSeed { State.globals N ℝ G with sent := startDevices }
  have h' := State.initNetwork_center noiseSeed' { State.globals N ℝ H with sent := startDevices }
  exact h.trans h'.symm

theorem cMain_axisX_eq {H : Type} [Prng H] {noiseSeed noiseSeed' : Uint}
    (hV : (State.cMain N ℝ G noiseSeed).wVXArray = (State.cMain N ℝ H noiseSeed').wVXArray)
    (hA : (State.cMain N ℝ G noiseSeed).wAThetaArray =
      (State.cMain N ℝ H noiseSeed').wAThetaArray) :
    (State.cMain N ℝ G noiseSeed).axisX = (State.cMain N ℝ H noiseSeed').axisX := by
  simp only [State.axisX, State.cMain_fX, State.cMain_eXArray, State.cMain_oldVX,
    State.cMain_errorX, hV, hA]

/-- The X and the Y axis of every unbalanced state learn by one function of
their own data. So two runs of any generators and seeds that balance
throughout, with the same initial X weights and the same X inputs at every
tick, leave the same X axis and compute the same `theta` at every tick. -/
theorem axes_learn_alike {H : Type} [Prng H] :
    (∀ (s : State N ℝ G) (t : Nat), s.state = .unbalanced →
      ((s.update t).axisX, s.theta) = s.axisX.tick s.centerX s.ball.pos.x (s.update t).inputX ∧
        ((s.update t).axisY, s.psi) =
          s.axisY.tick s.centerY s.ball.pos.y (s.update t).inputY) ∧
      ∀ (noiseSeed noiseSeed' : Uint) (evs evs' : List Event),
        let s := State.cMain N ℝ G noiseSeed
        let s' := State.cMain N ℝ H noiseSeed'
        Along step Unbalanced s evs → Along step Unbalanced s' evs' →
          s.wVXArray = s'.wVXArray → s.wAThetaArray = s'.wAThetaArray →
          emitted step inputsX s evs = emitted step inputsX s' evs' →
          emitted step outputsX s evs = emitted step outputsX s' evs' := by
  refine ⟨fun s t hs => State.update_axes hs t, ?_⟩
  intro noiseSeed noiseSeed' evs evs' s s' hu hu' hV hA hin
  have hcenter : s.centerX = s'.centerX := by
    funext i
    exact congrArg Vector2d.x (congrFun (cMain_center_eq noiseSeed noiseSeed') i)
  have hpos : s.ball.pos.x = s'.ball.pos.x :=
    congrArg Vector2d.x ((State.cMain_pos noiseSeed).trans (State.cMain_pos noiseSeed').symm)
  rw [outputsX_eq_ticks hu, outputsX_eq_ticks hu', hin, hcenter, hpos, cMain_axisX_eq hV hA]

theorem normalizedPos_above : (BallParams.normalizedPos 72 70 : Vector2d ℝ) = ⟨0, 2 / 11⟩ := by
  refine BallParams.normalizedPos_of_mem ?_ ?_ ?_
  all_goals norm_num [vNorm, aX, bX, aY, bY, ballPosXMax, ballPosXMin, ballPosXCenter, ballPosYMax,
    ballPosYMin, ballPosYCenter]

/-- A ball at (72, 60) and one at (72, 70), ten points further along y: 300
ticks leave the same X axis and the same `theta`. -/
theorem axes_learn_alike_column :
    let s := State.cMain nMFM ℝ MuslRand 0
    (run nMFM ℝ MuslRand 0 (looks 0x48BC ++ ticks 300)).ball.pos.y = 0 ∧
      (run nMFM ℝ MuslRand 0 (looks 0x48C6 ++ ticks 300)).ball.pos.y = 2 / 11 ∧
      ((s.update 1).axisX, s.theta) = s.axisX.tick s.centerX s.ball.pos.x (s.update 1).inputX ∧
      emitted step outputsX s (looks 0x48BC ++ ticks 300) =
        emitted step outputsX s (looks 0x48C6 ++ ticks 300) := by
  intro s
  have hp : Quiet (72, 60) (run nMFM ℝ MuslRand 0 (looks 0x48BC)) := quiet_looks 0 rfl
  have hp' : Quiet (72, 70) (run nMFM ℝ MuslRand 0 (looks 0x48C6)) := quiet_looks 0 rfl
  have hx : (BallParams.normalizedPos 72 60 : Vector2d ℝ).x =
      (BallParams.normalizedPos 72 70 : Vector2d ℝ).x := by
    rw [BallParams.normalizedPos_middle, normalizedPos_above]
  have hn : 300 ≤ 300 := le_rfl
  have halike := axes_learn_alike (N := nMFM) (G := MuslRand) (H := MuslRand)
  refine ⟨?_, ?_, (halike.1 s 1 (State.cMain_state 0)).1,
    halike.2 0 0 _ _ (along_looks_ticks hp hn) (along_looks_ticks hp' hn) rfl rfl
      (inputsX_column 0 hp hp' hx hn)⟩
  · have hy := congrArg Vector2d.y (hp.run_pos (by decide) hn)
    rw [BallParams.normalizedPos_middle] at hy
    exact hy
  · have hy := congrArg Vector2d.y (hp'.run_pos (by decide) hn)
    rw [normalizedPos_above] at hy
    exact hy

end Sequential

end BallController
