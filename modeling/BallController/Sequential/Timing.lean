import BallController.Sequential.Init

/-! Which call of `update` the factors of a learning step come from. The state
is stamped with the calls that last wrote `error_x`, `error_y` and `n`, and with
the position that the last call rewarded. `update` fires the populations and
updates the actor first and computes the error last, so that a call pairs its
own noise with the error of the call before, and rates fired at the position of
the call before with the reward of its own position. -/

namespace BallController.Sequential
open Lib Spin1Math

/-- The state with the history of its globals. -/
structure Stamped (N : Nat) (α G : Type) where
  state : State N α G
  /-- the calls of `update` so far that did learn -/
  calls : Nat
  /-- the call whose `updateError` wrote `error_x` and `error_y`, 0 for none -/
  errorCall : Nat
  /-- the call whose `update_A` wrote `n`, 0 for none -/
  noiseCall : Nat
  /-- the normalised position of `x_pos`, `y_pos` at the last call -/
  lastPos : Vector2d α

namespace Stamped

variable {N : Nat} {α G : Type} [Field α] [LinearOrder α] [FloorRing α] [Libm α] [Prng G]

/-! The five functions of a call, with their stamps. -/

def mfm (x : Stamped N α G) : Stamped N α G := { x with state := x.state.mfm }

def updateA (x : Stamped N α G) : Stamped N α G :=
  { x with state := x.state.updateA, noiseCall := x.calls }

def move (simTime : Nat) (x : Stamped N α G) : Stamped N α G :=
  let m := x.state.move simTime
  { x with state := { m.1 with state := m.2 } }

def updateError (simTime : Nat) (x : Stamped N α G) : Stamped N α G :=
  let t := x.state.tracker
  { x with
    state := x.state.updateError t.xPos t.yPos simTime
    errorCall := x.calls
    lastPos := BallParams.normalizedPos t.xPos t.yPos }

def updateV (x : Stamped N α G) : Stamped N α G := { x with state := x.state.updateV }

/-- The stamped state in which `update_A` has just run: its stamps are those of
the factors that it multiplied, and of the noise that `move` is about to add. -/
def credited (x : Stamped N α G) : Stamped N α G :=
  ({ x with calls := x.calls + 1 } : Stamped N α G).mfm.updateA

def learn (simTime : Nat) (x : Stamped N α G) : Stamped N α G :=
  ((x.credited.move simTime).updateError simTime).updateV

def step (x : Stamped N α G) : Event → Stamped N α G
  | .camera key now => { x with state := Sequential.step x.state (.camera key now) }
  | .tick simTime =>
    if x.state.timerOn then
      if x.state.state = .unbalanced then
        { x.learn simTime with state := x.state.update simTime }
      else { x with state := x.state.update simTime }
    else x

def start (N : Nat) (α G : Type) [Field α] [LinearOrder α] [FloorRing α] [Libm α] [Prng G]
    (noiseSeed : Uint) : Stamped N α G where
  state := State.cMain N α G noiseSeed
  calls := 0
  errorCall := 0
  noiseCall := 0
  lastPos := ⟨-1.0, 0.0⟩

def run (N : Nat) (α G : Type) [Field α] [LinearOrder α] [FloorRing α] [Libm α] [Prng G]
    (noiseSeed : Uint) (evs : List Event) : Stamped N α G :=
  exec step (start N α G noiseSeed) evs

end Stamped

variable {N : Nat} {G : Type} [Prng G]

namespace Stamped

/-! ## The stamps say what they should -/

/-- The stamps are written along a call of `learn` and do not influence it. -/
theorem learn_state (t : Nat) (x : Stamped N ℝ G) : (x.learn t).state = x.state.learn t := by
  simp only [learn, credited, updateV, updateError, move, updateA, mfm, State.learn]
  rfl

theorem learn_lastPos (t : Nat) (x : Stamped N ℝ G) : (x.learn t).lastPos =
    BallParams.normalizedPos x.state.tracker.xPos x.state.tracker.yPos := by
  have htracker : (x.state.beforeError t).tracker = x.state.tracker := by
    simp [State.beforeError, State.move_fst]
  rw [← htracker]
  rfl

theorem step_state (x : Stamped N ℝ G) (e : Event) : (x.step e).state = Sequential.step x.state e := by
  cases e with
  | camera key now => rfl
  | tick t =>
    simp only [step, Sequential.step]
    split_ifs <;> rfl

theorem run_state (noiseSeed : Uint) (evs : List Event) :
    (run N ℝ G noiseSeed evs).state = Sequential.run N ℝ G noiseSeed evs := by
  unfold run Sequential.run
  generalize hx : start N ℝ G noiseSeed = x
  have hs : State.cMain N ℝ G noiseSeed = x.state := by
    rw [← hx]
    rfl
  rw [hs]
  clear hx hs
  induction evs generalizing x with
  | nil => rfl
  | cons e evs ih => rw [exec_cons, exec_cons, ih, step_state]

/-- Between two calls all stamps are those of the last call. -/
structure Ok (x : Stamped N ℝ G) : Prop where
  error_eq : x.errorCall = x.calls
  noise_eq : x.noiseCall = x.calls
  pos_eq : x.state.ball.pos = x.lastPos

theorem Ok.step {x : Stamped N ℝ G} (h : x.Ok) (e : Event) : (x.step e).Ok := by
  cases e with
  | camera key now =>
    refine ⟨h.error_eq, h.noise_eq, ?_⟩
    simp only [Stamped.step, Sequential.step, State.cameraEvent]
    split <;> exact h.pos_eq
  | tick t =>
    simp only [Stamped.step]
    split_ifs with h1 h2
    · refine ⟨rfl, rfl, ?_⟩
      have hpos := State.update_frame (fun s : State N ℝ G => s.ball.pos) (fun _ => rfl) t x.state
      rw [if_pos h2, State.learn_ball, BallParams.normalizeBallParams_pos] at hpos
      exact hpos.trans (learn_lastPos t x).symm
    · refine ⟨h.error_eq, h.noise_eq, ?_⟩
      have hpos := State.update_frame (fun s : State N ℝ G => s.ball.pos) (fun _ => rfl) t x.state
      rw [if_neg h2] at hpos
      exact hpos.trans h.pos_eq
    · exact h

theorem start_ok (noiseSeed : Uint) : (start N ℝ G noiseSeed).Ok :=
  ⟨rfl, rfl, State.cMain_pos noiseSeed⟩

theorem run_ok (noiseSeed : Uint) (evs : List Event) : (run N ℝ G noiseSeed evs).Ok :=
  exec_induction (fun _ e h => h.step e) (start_ok noiseSeed) evs

/-! ## Exploration credit -/

/-- `update_A` of the coming call changes an actor weight. -/
def ActorChanges (x : Stamped N ℝ G) : Prop :=
  x.credited.state.wAThetaArray ≠ x.state.wAThetaArray ∨
    x.credited.state.wAPsiArray ≠ x.state.wAPsiArray

/-- If `update_A` of the coming call changes an actor weight, the error and the
noise that it multiplies come from the same call. -/
def CreditOk (x : Stamped N ℝ G) : Prop :=
  x.ActorChanges → x.credited.errorCall = x.credited.noiseCall

/-- Every product of the stored error, the next noise and a next firing rate is
zero, on both axes. -/
def NoCredit (s : State N ℝ G) : Prop :=
  ∀ i, s.errorX * (noise (α := ℝ) s.gen).1.x * s.mfm.fX i = 0 ∧
    s.errorY * (noise (α := ℝ) s.gen).1.y * s.mfm.fY i = 0

theorem credited_actor (x : Stamped N ℝ G) (i : Fin N) :
    x.credited.state.wAThetaArray i = x.state.wAThetaArray i -
        learningRateA * (x.state.errorX * (noise (α := ℝ) x.state.gen).1.x * x.state.mfm.fX i) ∧
      x.credited.state.wAPsiArray i = x.state.wAPsiArray i -
        learningRateA * (x.state.errorY * (noise (α := ℝ) x.state.gen).1.y * x.state.mfm.fY i) := by
  have h : x.credited.state = x.state.mfm.updateA := rfl
  rw [h, State.updateA_eq, State.mfm_eq]
  constructor <;> simp only [← mul_assoc] <;> rfl

theorem actorChanges_iff (x : Stamped N ℝ G) : x.ActorChanges ↔ ¬NoCredit x.state := by
  have hr : (learningRateA : ℝ) ≠ 0 := by norm_num [learningRateA]
  rw [ActorChanges, ← not_and_or, not_iff_not, funext_iff, funext_iff, ← forall_and]
  refine forall_congr' fun i => ?_
  rw [(credited_actor x i).1, (credited_actor x i).2]
  simp only [sub_eq_self, mul_eq_zero, hr, false_or]

/-- In every run, the noise that `update_A` credits is that of its own call and
the error that of the call before (the initial value at the first call). So the
credit is right exactly when `update_A` has nothing to change. -/
theorem creditOk_iff (noiseSeed : Uint) (evs : List Event) :
    let x := run N ℝ G noiseSeed evs
    x.state = Sequential.run N ℝ G noiseSeed evs ∧
      x.credited.noiseCall = x.calls + 1 ∧ x.credited.errorCall = x.calls ∧
      (∀ t, (x.learn t).state = x.state.learn t ∧ (x.learn t).errorCall = x.calls + 1) ∧
      (x.CreditOk ↔ NoCredit x.state) := by
  intro x
  have hok := run_ok (N := N) (G := G) noiseSeed evs
  have herror : x.credited.errorCall = x.calls := hok.error_eq
  have hne : ¬x.credited.errorCall = x.credited.noiseCall := by
    rw [herror]
    exact Nat.ne_of_lt (Nat.lt_succ_self _)
  refine ⟨run_state noiseSeed evs, rfl, herror, fun t => ⟨learn_state t x, rfl⟩, ?_⟩
  rw [CreditOk, actorChanges_iff, not_imp_comm]
  exact ⟨fun h => h hne, fun h _ => h⟩

/-- The first call pairs its noise with the initial error, which no call computed:
the population at the left edge, where the ball starts, learns from it. -/
theorem first_call_credits_initial_error : ¬(run nMFM ℝ MuslRand 0 []).CreditOk := by
  intro h
  have hstamps : ¬(0 : Nat) = 1 := by decide
  refine hstamps (h ((actorChanges_iff _).mpr fun hz => ?_))
  have hstate : (run nMFM ℝ MuslRand 0 []).state = State.cMain nMFM ℝ MuslRand 0 := rfl
  have herror : (run nMFM ℝ MuslRand 0 []).state.errorX = 1.0 := State.cMain_errorX 0
  have hf : (run nMFM ℝ MuslRand 0 []).state.mfm.fX ⟨34, by decide⟩ ≠ 0 := by
    rw [hstate]
    exact State.cMain_mfm_left_fires 0
  have hprod := (hz ⟨34, by decide⟩).1
  rw [herror] at hprod
  exact mul_ne_zero (mul_ne_zero (by norm_num) (noise_x_ne_zero _)) hf hprod

end Stamped

/-! ## One position -/

/-- The position with which `mfm_` of the coming call updates the rates. -/
def ratesPos (s : State N ℝ G) : Vector2d ℝ := s.ball.pos

/-- The position from which the coming call computes its reward. -/
noncomputable def rewardPos (simTime : Nat) (s : State N ℝ G) : Vector2d ℝ :=
  ((s.beforeError simTime).updateError s.tracker.xPos s.tracker.yPos simTime).ball.pos

theorem beforeMove_rate (s : State N ℝ G) :
    s.beforeMove.fX = (s.axisX.fire s.centerX (ratesPos s).x).rate ∧
      s.beforeMove.fY = (s.axisY.fire s.centerY (ratesPos s).y).rate := by
  rw [State.beforeMove, State.updateA_eq, State.mfm_eq]
  exact ⟨rfl, rfl⟩

theorem rewardPos_eq (t : Nat) (s : State N ℝ G) :
    rewardPos t s = BallParams.normalizedPos s.tracker.xPos s.tracker.yPos := by
  rw [rewardPos, State.updateError_eq]
  exact BallParams.normalizeBallParams_pos _ _ _ _

/-- In every run, the rates that `move` and the value see are fired at the
position of the call before, (-1, 0) at the first call, and the reward is that
of the position now, which the call leaves in its stamp. So a call uses one
position exactly when the tracked position normalises to the same point as at
the call before. -/
theorem onePosition_iff (noiseSeed : Uint) (evs : List Event) (t : Nat) :
    let x := Stamped.run N ℝ G noiseSeed evs
    let s := Sequential.run N ℝ G noiseSeed evs
    s.beforeMove.fX = (s.axisX.fire s.centerX (ratesPos s).x).rate ∧
      s.beforeMove.fY = (s.axisY.fire s.centerY (ratesPos s).y).rate ∧
      ((x.learn t).state = s.learn t ∧ (x.learn t).lastPos = rewardPos t s) ∧
      (ratesPos s = rewardPos t s ↔
        BallParams.normalizedPos s.tracker.xPos s.tracker.yPos = x.lastPos) := by
  intro x s
  have hx : x.state = s := Stamped.run_state noiseSeed evs
  have hpos : s.ball.pos = x.lastPos := by
    rw [← hx]
    exact (Stamped.run_ok noiseSeed evs).pos_eq
  refine ⟨(beforeMove_rate s).1, (beforeMove_rate s).2, ⟨?_, ?_⟩, ?_⟩
  · rw [← hx]
    exact x.learn_state t
  · rw [rewardPos_eq, ← hx]
    exact x.learn_lastPos t
  · rw [rewardPos_eq, ratesPos, hpos]
    exact eq_comm

/-- At the first call, with no camera sample yet, the rates are fired at (-1, 0)
and the reward is that of the corner. -/
theorem first_call_uses_two_positions :
    let s := Sequential.run nMFM ℝ MuslRand 0 []
    s.timerOn = true ∧ s.state = .unbalanced ∧ ratesPos s ≠ rewardPos 1 s := by
  intro s
  refine ⟨State.cMain_timerOn 0, State.cMain_state 0, fun h => ?_⟩
  have hpos : ratesPos s = ⟨-1.0, 0.0⟩ := State.cMain_pos 0
  have htracker : s.tracker = Tracker.init := State.cMain_tracker 0
  have hx := BallParams.normalizedPos_zero_mem.1.1
  rw [rewardPos_eq, htracker, hpos] at h
  have hx' : (-1.0 : ℝ) = (BallParams.normalizedPos 0 0).x := congrArg Vector2d.x h
  rw [← hx'] at hx
  norm_num at hx

end BallController.Sequential
