import BallController.Critic
import BallController.Sequential.Init

/-! The critic part of the tick, for a ball that rests. Each axis is a critic in
the sense of `Axis.Rest`, so its errors stay bounded for all initial weights if
and only if the loop gain of the resting position is 1 at most. On the centre
line of the plate it is not. -/

namespace BallController

namespace BallParams

section Functions

variable {α : Type} [Field α] [LinearOrder α] [Libm α]

/-- The ball parameters after `n` ticks at one tracked position. -/
def held (xPos yPos : Int) (b : BallParams α) : Nat → BallParams α
  | 0 => b
  | n + 1 => (held xPos yPos b n).normalizeBallParams xPos yPos (n + 1)

end Functions

variable (xPos yPos : Int) (b : BallParams ℝ)

theorem held_pos (n : Nat) : (held xPos yPos b (n + 1)).pos = normalizedPos xPos yPos :=
  normalizeBallParams_pos _ _ _ _

/-- From the fifth tick on the last sample of the speed is the resting position. -/
theorem held_oldPos {n : Nat} (h : 5 ≤ n) :
    (held xPos yPos b n).oldPos = normalizedPos xPos yPos := by
  have hstep : ∀ n, (held xPos yPos b (n + 1)).oldPos =
      if (n + 1) % speedAveragerStep = 0 then normalizedPos xPos yPos
      else (held xPos yPos b n).oldPos := by
    intro n
    rw [held, (normalizeBallParams_speed _ _ _ _).2.2, computeSpeed]
    split <;> rfl
  induction n, h using Nat.le_induction with
  | base => rw [hstep, if_pos (by decide)]
  | succ n _ ih =>
    rw [hstep]
    split
    · rfl
    · exact ih

/-- So from the tenth on the speed is zero. -/
theorem held_spTerm {n : Nat} (h : 10 ≤ n) :
    (held xPos yPos b n).spXTerm = 0 ∧ (held xPos yPos b n).spYTerm = 0 := by
  have hstep : ∀ n, 5 ≤ n → (n + 1) % speedAveragerStep = 0 →
      (held xPos yPos b (n + 1)).spXTerm = 0 ∧ (held xPos yPos b (n + 1)).spYTerm = 0 := by
    intro n hn hmod
    obtain ⟨hx, hy, _⟩ := normalizeBallParams_speed xPos yPos (n + 1) (held xPos yPos b n)
    rw [held, hx, hy, computeSpeed, if_pos hmod]
    simp [held_oldPos xPos yPos b hn]
  have hkeep : ∀ n, (n + 1) % speedAveragerStep ≠ 0 →
      (held xPos yPos b (n + 1)).spXTerm = (held xPos yPos b n).spXTerm ∧
        (held xPos yPos b (n + 1)).spYTerm = (held xPos yPos b n).spYTerm := by
    intro n hmod
    obtain ⟨hx, hy, _⟩ := normalizeBallParams_speed xPos yPos (n + 1) (held xPos yPos b n)
    rw [held, hx, hy, computeSpeed, if_neg hmod]
    exact ⟨rfl, rfl⟩
  induction n, h using Nat.le_induction with
  | base => exact hstep 9 (by omega) (by decide)
  | succ n hn ih =>
    by_cases hmod : (n + 1) % speedAveragerStep = 0
    · exact hstep n (by omega) hmod
    · obtain ⟨hx, hy⟩ := hkeep n hmod
      exact ⟨hx.trans ih.1, hy.trans ih.2⟩

/-- The rewards become constant. -/
theorem held_reward {n : Nat} (h : 10 ≤ n) :
    (held xPos yPos b n).rX = (held xPos yPos b 10).rX ∧
      (held xPos yPos b n).rY = (held xPos yPos b 10).rY := by
  obtain ⟨m, rfl⟩ := Nat.exists_eq_add_of_le' (le_trans (by omega : 1 ≤ 10) h)
  obtain ⟨hx, hy⟩ := held_spTerm xPos yPos b h
  obtain ⟨hx', hy'⟩ := held_spTerm xPos yPos b (le_refl 10)
  simp only [rX, rY, rPosX, rPosY, hx, hy, hx', hy', held_pos, and_self]

end BallParams

namespace Sequential
open Lib Lib.Feedback Spin1Math

namespace State

section Functions

variable {N : Nat} {α G : Type} [Field α] [LinearOrder α] [FloorRing α] [Libm α] [Prng G]

/-- `mfm_`, `updateError` and `update_V`, with the tracked position held. -/
def criticTick (xPos yPos : Int) (s : State N α G) (simTime : Nat) : State N α G :=
  (s.mfm.updateError xPos yPos simTime).updateV

/-- The ticks 1 to `n`. -/
def criticRun (xPos yPos : Int) (s : State N α G) (n : Nat) : State N α G :=
  exec (criticTick xPos yPos) s (List.range' 1 n)

/-- What `init_network` leaves, for these weights of the critic. -/
def criticStart (N : Nat) (α G : Type) [Field α] [LinearOrder α] [FloorRing α] [Libm α] [Prng G]
    (noiseSeed : Uint) (wVX wVY : CArray N α) : State N α G :=
  { cMain N α G noiseSeed with wVXArray := wVX, wVYArray := wVY }

end Functions

variable {N : Nat} {G : Type}

theorem criticTick_eq (xPos yPos : Int) (s : State N ℝ G) (t : Nat) :
    s.criticTick xPos yPos t =
      { s with ball := s.ball.normalizeBallParams xPos yPos t }.withAxes
        (s.axisX.critique s.centerX s.ball.pos.x (s.ball.normalizeBallParams xPos yPos t).rX)
        (s.axisY.critique s.centerY s.ball.pos.y (s.ball.normalizeBallParams xPos yPos t).rY) := by
  rw [criticTick, updateV_eq, updateError_eq, mfm_eq]
  rfl

theorem criticRun_succ (xPos yPos : Int) (s : State N ℝ G) (n : Nat) :
    s.criticRun xPos yPos (n + 1) = (s.criticRun xPos yPos n).criticTick xPos yPos (n + 1) := by
  rw [criticRun, List.range'_1_concat, exec_concat, Nat.add_comm 1 n]
  rfl

theorem criticRun_frame (xPos yPos : Int) (s : State N ℝ G) (n : Nat) :
    (s.criticRun xPos yPos n).ball = s.ball.held xPos yPos n ∧
      (s.criticRun xPos yPos n).center = s.center := by
  induction n with
  | zero => exact ⟨rfl, rfl⟩
  | succ n ih =>
    rw [criticRun_succ, criticTick_eq]
    exact ⟨by rw [BallParams.held, ← ih.1]; rfl, ih.2⟩

variable [Prng G]

theorem criticStart_frame (noiseSeed : Uint) (wVX wVY : CArray N ℝ) :
    (criticStart N ℝ G noiseSeed wVX wVY).ball = (cMain N ℝ G noiseSeed).ball ∧
      (criticStart N ℝ G noiseSeed wVX wVY).center = (cMain N ℝ G noiseSeed).center := ⟨rfl, rfl⟩

theorem criticRun_critic (noiseSeed : Uint) (xPos yPos : Int) (wVX wVY : CArray N ℝ) :
    let s := criticStart N ℝ G noiseSeed wVX wVY
    (s.criticRun xPos yPos 0).axisX.critic = wVX ∧ (s.criticRun xPos yPos 0).axisY.critic = wVY :=
  ⟨rfl, rfl⟩

theorem criticRun_start (noiseSeed : Uint) (xPos yPos : Int) (wVX wVY : CArray N ℝ) (k : Nat) :
    let s := criticStart N ℝ G noiseSeed wVX wVY
    (s.criticRun xPos yPos k).ball = (cMain N ℝ G noiseSeed).ball.held xPos yPos k ∧
      (s.criticRun xPos yPos k).center = (cMain N ℝ G noiseSeed).center := by
  intro s
  obtain ⟨hball, hcenter⟩ := criticRun_frame xPos yPos s k
  obtain ⟨hball0, hcenter0⟩ := criticStart_frame (G := G) noiseSeed wVX wVY
  exact ⟨hball.trans (congrArg (BallParams.held xPos yPos · k) hball0), hcenter.trans hcenter0⟩

/-- The ball of a run rests at one position after the first call. -/
theorem held_cMain_pos (noiseSeed : Uint) (xPos yPos : Int) (k : Nat) :
    let q : Vector2d ℝ := BallParams.normalizedPos xPos yPos
    ((cMain N ℝ G noiseSeed).ball.held xPos yPos k).pos.x = Axis.Resting.pos q.x (-1) k ∧
      ((cMain N ℝ G noiseSeed).ball.held xPos yPos k).pos.y = Axis.Resting.pos q.y 0 k := by
  intro q
  cases k with
  | zero =>
    have hpos : ((cMain N ℝ G noiseSeed).ball.held xPos yPos 0).pos = ⟨-1.0, 0.0⟩ :=
      cMain_pos noiseSeed
    rw [hpos]
    norm_num [Axis.Resting.pos]
  | succ k =>
    rw [BallParams.held_pos]
    exact ⟨rfl, rfl⟩

/-- The x axis of a run is a critic at rest, ... -/
theorem rest_axisX (noiseSeed : Uint) (xPos yPos : Int) (wVX wVY : CArray N ℝ) :
    let s := criticStart N ℝ G noiseSeed wVX wVY
    Axis.Rest (cMain N ℝ G noiseSeed).centerX (BallParams.normalizedPos xPos yPos : Vector2d ℝ).x (-1)
      (fun k => ((cMain N ℝ G noiseSeed).ball.held xPos yPos (k + 1)).rX)
      fun k => (s.criticRun xPos yPos k).axisX := by
  intro s
  refine ⟨?_, ?_, ?_, fun k => ?_⟩
  · show (cMain N ℝ G noiseSeed).fX = 0
    exact cMain_fX noiseSeed
  · show (cMain N ℝ G noiseSeed).eXArray = 0
    exact cMain_eXArray noiseSeed
  · show (cMain N ℝ G noiseSeed).oldVX = 0
    rw [cMain_oldVX]
    norm_num
  · obtain ⟨hball, hcenter⟩ := criticRun_start (G := G) noiseSeed xPos yPos wVX wVY k
    have hc : (s.criticRun xPos yPos k).centerX = (cMain N ℝ G noiseSeed).centerX :=
      funext fun i => congrArg Vector2d.x (congrFun hcenter i)
    rw [criticRun_succ, criticTick_eq, axisX_withAxes, hc, hball,
      (held_cMain_pos noiseSeed xPos yPos k).1]
    rfl

/-- ... and so is the y axis. -/
theorem rest_axisY (noiseSeed : Uint) (xPos yPos : Int) (wVX wVY : CArray N ℝ) :
    let s := criticStart N ℝ G noiseSeed wVX wVY
    Axis.Rest (cMain N ℝ G noiseSeed).centerY (BallParams.normalizedPos xPos yPos : Vector2d ℝ).y 0
      (fun k => ((cMain N ℝ G noiseSeed).ball.held xPos yPos (k + 1)).rY)
      fun k => (s.criticRun xPos yPos k).axisY := by
  intro s
  refine ⟨?_, ?_, ?_, fun k => ?_⟩
  · show (cMain N ℝ G noiseSeed).fY = 0
    exact cMain_fY noiseSeed
  · show (cMain N ℝ G noiseSeed).eYArray = 0
    exact cMain_eYArray noiseSeed
  · show (cMain N ℝ G noiseSeed).oldVY = 0
    rw [cMain_oldVY]
    norm_num
  · obtain ⟨hball, hcenter⟩ := criticRun_start (G := G) noiseSeed xPos yPos wVX wVY k
    have hc : (s.criticRun xPos yPos k).centerY = (cMain N ℝ G noiseSeed).centerY :=
      funext fun i => congrArg Vector2d.y (congrFun hcenter i)
    rw [criticRun_succ, criticTick_eq, axisY_withAxes, hc, hball,
      (held_cMain_pos noiseSeed xPos yPos k).2]
    rfl

end State

/-! ## Boundedness -/

/-- The errors of the critic stay bounded from these initial weights. -/
def ErrorsBounded (G : Type) [Prng G] (noiseSeed : Uint) (xPos yPos : Int)
    (wVX wVY : CArray nMFM ℝ) : Prop :=
  let s := State.criticStart nMFM ℝ G noiseSeed wVX wVY
  ∃ B, ∀ n, |(s.criticRun xPos yPos n).errorX| ≤ B ∧ |(s.criticRun xPos yPos n).errorY| ≤ B

/-- The loop gains of a resting position, on the two axes. -/
noncomputable def loopGainX (G : Type) [Prng G] (noiseSeed : Uint) (xPos yPos : Int) : ℝ :=
  Axis.loopGain (Axis.profile (State.cMain nMFM ℝ G noiseSeed).centerX
    (BallParams.normalizedPos xPos yPos : Vector2d ℝ).x)

noncomputable def loopGainY (G : Type) [Prng G] (noiseSeed : Uint) (xPos yPos : Int) : ℝ :=
  Axis.loopGain (Axis.profile (State.cMain nMFM ℝ G noiseSeed).centerY
    (BallParams.normalizedPos xPos yPos : Vector2d ℝ).y)

section Bounded

variable {G : Type} [Prng G] {noiseSeed : Uint} {xPos yPos : Int}

theorem errorsBounded_iff {wVX wVY : CArray nMFM ℝ} :
    ErrorsBounded G noiseSeed xPos yPos wVX wVY ↔
      (Bounded fun k =>
        ((State.criticStart nMFM ℝ G noiseSeed wVX wVY).criticRun xPos yPos k).axisX.error) ∧
      Bounded fun k =>
        ((State.criticStart nMFM ℝ G noiseSeed wVX wVY).criticRun xPos yPos k).axisY.error := by
  constructor
  · rintro ⟨B, hB⟩
    exact ⟨⟨B, fun k => (hB k).1⟩, ⟨B, fun k => (hB k).2⟩⟩
  · rintro ⟨⟨A, hA⟩, ⟨B, hB⟩⟩
    exact ⟨max A B, fun k => ⟨(hA k).trans (le_max_left _ _), (hB k).trans (le_max_right _ _)⟩⟩

theorem errorsBounded_of_gain (hX : loopGainX G noiseSeed xPos yPos ≤ 1)
    (hY : loopGainY G noiseSeed xPos yPos ≤ 1) (wVX wVY : CArray nMFM ℝ) :
    ErrorsBounded G noiseSeed xPos yPos wVX wVY := by
  refine errorsBounded_iff.mpr ⟨?_, ?_⟩
  · exact (State.rest_axisX noiseSeed xPos yPos wVX wVY).bounded (n := 9)
      (fun k hk => (BallParams.held_reward _ _ _ (by omega)).1) hX
  · exact (State.rest_axisY noiseSeed xPos yPos wVX wVY).bounded (n := 9)
      (fun k hk => (BallParams.held_reward _ _ _ (by omega)).2) hY

theorem cMain_last_center : (State.cMain nMFM ℝ G noiseSeed).center ⟨63, by decide⟩ = ⟨0, 0⟩ := by
  rw [State.cMain_center, if_neg (by decide)]

/-- Populations at the left edge and in the middle fire at the first tick. -/
theorem profile_start_ne_zero :
    Axis.profile (State.cMain nMFM ℝ G noiseSeed).centerX (-1) ≠ 0 ∧
      Axis.profile (State.cMain nMFM ℝ G noiseSeed).centerY 0 ≠ 0 := by
  constructor
  · intro h
    have h0 := congrFun h ⟨34, by decide⟩
    simp only [Axis.profile, State.centerX, State.cMain_left_center, Pi.zero_apply] at h0
    exact activation_256_3_pos.ne' h0
  · intro h
    have h0 := congrFun h ⟨63, by decide⟩
    simp only [Axis.profile, State.centerY, cMain_last_center, Pi.zero_apply, sub_self, abs_zero] at h0
    linarith [le_activation (le_refl (0 : ℝ))]

theorem abs_zero_le (i : Fin nMFM) : |(0 : CArray nMFM ℝ) i| ≤ 0.1 := by
  rw [Pi.zero_apply, abs_zero]
  norm_num

/-- Boundedness from all initial weights needs a loop gain of 1 at most, ... -/
theorem gainX_le_of_errorsBounded
    (h : ∀ wVX : CArray nMFM ℝ, (∀ i, |wVX i| ≤ 0.1) → ErrorsBounded G noiseSeed xPos yPos wVX 0) :
    loopGainX G noiseSeed xPos yPos ≤ 1 := by
  have hrest := fun w => State.rest_axisX (N := nMFM) (G := G) noiseSeed xPos yPos w 0
  have hcritic := fun w : CArray nMFM ℝ => (State.criticRun_critic (G := G) noiseSeed xPos yPos w 0).1
  exact Axis.Rest.loopGain_le_of_bounded hrest hcritic profile_start_ne_zero.1
    (by norm_num : (0 : ℝ) < 0.1) fun w hw => (errorsBounded_iff.mp (h w hw)).1

/-- ... on either axis. -/
theorem gainY_le_of_errorsBounded
    (h : ∀ wVY : CArray nMFM ℝ, (∀ i, |wVY i| ≤ 0.1) → ErrorsBounded G noiseSeed xPos yPos 0 wVY) :
    loopGainY G noiseSeed xPos yPos ≤ 1 := by
  have hrest := fun w => State.rest_axisY (N := nMFM) (G := G) noiseSeed xPos yPos 0 w
  have hcritic := fun w : CArray nMFM ℝ => (State.criticRun_critic (G := G) noiseSeed xPos yPos 0 w).2
  exact Axis.Rest.loopGain_le_of_bounded hrest hcritic profile_start_ne_zero.2
    (by norm_num : (0 : ℝ) < 0.1) fun w hw => (errorsBounded_iff.mp (h w hw)).2

end Bounded

/-- For a ball that rests at a tracked position, the errors are bounded from all
initial weights if and only if both loop gains are 1 at most. -/
theorem critic_bounded_iff (G : Type) [Prng G] (noiseSeed : Uint) (xPos yPos : Int) :
    (∀ wVX wVY : CArray nMFM ℝ, (∀ i, |wVX i| ≤ 0.1 ∧ |wVY i| ≤ 0.1) →
      ErrorsBounded G noiseSeed xPos yPos wVX wVY) ↔
    loopGainX G noiseSeed xPos yPos ≤ 1 ∧ loopGainY G noiseSeed xPos yPos ≤ 1 := by
  constructor
  · intro h
    exact ⟨gainX_le_of_errorsBounded fun w hw => h w 0 fun i => ⟨hw i, abs_zero_le i⟩,
      gainY_le_of_errorsBounded fun w hw => h 0 w fun i => ⟨abs_zero_le i, hw i⟩⟩
  · rintro ⟨hX, hY⟩ wVX wVY _
    exact errorsBounded_of_gain hX hY wVX wVY

end Sequential

end BallController
