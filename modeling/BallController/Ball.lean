import BallController.Lib.Loop
import BallController.Spin1Math

/-! The ball parameters of `network.c`, the same in both versions: the
normalised position, the speed and its terms, the running means of their norms,
and the rewards computed from them. -/

namespace BallController
open Lib Spin1Math

/-- The globals of `network.c` that `normalizeBallParams` reads and writes. -/
@[ext]
structure BallParams (α : Type) where
  pos : Vector2d α
  speed : Vector2d α
  oldPos : Vector2d α
  spXTerm : α
  spYTerm : α
  posBuffer : CArray 4 α
  speedBuffer : CArray 4 α
  totalSumPos : α
  totalSumSpeed : α
  avgPos : α
  avgSpeed : α
  avgIndex : Nat

def ballPosYMax : Int := 115
def ballPosYMin : Int := 5
def ballPosYCenter : Int := (ballPosYMax + ballPosYMin) / 2
def ballPosXMax : Int := 125
def ballPosXMin : Int := 20
def ballPosXCenter : Int := (ballPosXMax + ballPosXMin) / 2

def speedAveragerStep : Nat := 5

section Constants

variable {α : Type} [Field α]

def aX : α := -1.0 / ((ballPosXMax - ballPosXCenter : Int) : α)
def bX : α := -aX * (ballPosXCenter : α)
def aY : α := -1.0 / ((ballPosYMin - ballPosYCenter : Int) : α)
def bY : α := -aY * (ballPosYCenter : α)
def speedResizeFactor : α := 0.1
def deltaTime : α := 0.1
def invDeltaTime : α := 1.0 / deltaTime
def invSpeedAveragerStep : α := 1.0 / (speedAveragerStep : α)

end Constants

theorem invDeltaTime_eq : (invDeltaTime : ℝ) = 10 := by
  norm_num [invDeltaTime, deltaTime]

namespace BallParams

section Functions

variable {α : Type} [Field α] [LinearOrder α] [Libm α]

/-- Static initialisation. -/
def globals : BallParams α where
  pos := ⟨0, 0⟩
  speed := ⟨0, 0⟩
  oldPos := ⟨0, 0⟩
  spXTerm := 0.0
  spYTerm := 0.0
  posBuffer := 0
  speedBuffer := 0
  totalSumPos := 4.0
  totalSumSpeed := 4.0
  avgPos := 1.0
  avgSpeed := 1.0
  avgIndex := 0

def averageParams (b : BallParams α) : BallParams α :=
  let nPos := vNorm b.pos
  let nSp := vNorm b.speed
  let totalSumPos := b.totalSumPos - b.posBuffer.read b.avgIndex + nPos
  let totalSumSpeed := b.totalSumSpeed - b.speedBuffer.read b.avgIndex + nSp
  { b with
    totalSumPos := totalSumPos
    totalSumSpeed := totalSumSpeed
    posBuffer := b.posBuffer.write b.avgIndex nPos
    speedBuffer := b.speedBuffer.write b.avgIndex nSp
    avgPos := totalSumPos / 4.0
    avgSpeed := totalSumSpeed / 4.0
    avgIndex := (b.avgIndex + 1) % 4 }

def computeSpeed (simTime : Nat) (b : BallParams α) : BallParams α :=
  if simTime % speedAveragerStep = 0 then
    let speed : Vector2d α :=
      ⟨(b.pos.x - b.oldPos.x) * invDeltaTime * invSpeedAveragerStep * speedResizeFactor,
       (b.pos.y - b.oldPos.y) * invDeltaTime * invSpeedAveragerStep * speedResizeFactor⟩
    { b with
      speed := speed
      spXTerm := fAbs speed.x
      spYTerm := fAbs speed.y
      oldPos := b.pos }
  else b

/-- The position `normalizeBallParams` computes: affine, then pulled back onto
the unit disc. -/
def normalizedPos (xPos yPos : Int) : Vector2d α :=
  let pos : Vector2d α := ⟨aX * xPos + bX, aY * yPos + bY⟩
  let nPos := vNorm pos
  if nPos > 1.0 then ⟨pos.x / nPos, pos.y / nPos⟩ else pos

def normalizeBallParams (xPos yPos : Int) (simTime : Nat) (b : BallParams α) : BallParams α :=
  averageParams (computeSpeed simTime { b with pos := normalizedPos xPos yPos })

def rPosX (b : BallParams α) : α := 1.0 - fAbs b.pos.x

def rPosY (b : BallParams α) : α := 1.0 - fAbs b.pos.y

def rX (b : BallParams α) : α := range (b.rPosX - b.spXTerm) (-1.0) 1.0

def rY (b : BallParams α) : α := range (b.rPosY - b.spYTerm) (-1.0) 1.0

/-! Every call of `normalizeBallParams` moves the position to that of its
arguments, whatever the rest of the state. -/

@[simp] theorem normalizeBallParams_pos (x y : Int) (t : Nat) (b : BallParams α) :
    (normalizeBallParams x y t b).pos = normalizedPos x y := by
  unfold normalizeBallParams averageParams computeSpeed
  split <;> rfl

@[simp] theorem normalizeBallParams_avgIndex (x y : Int) (t : Nat) (b : BallParams α) :
    (normalizeBallParams x y t b).avgIndex = (b.avgIndex + 1) % 4 := by
  unfold normalizeBallParams averageParams computeSpeed
  split <;> rfl

/-- Off the averaging step the speed terms are kept; on it they are the
displacement since the last such step. -/
theorem normalizeBallParams_speed (x y : Int) (t : Nat) (b : BallParams α) :
    (normalizeBallParams x y t b).spXTerm =
        (computeSpeed t { b with pos := normalizedPos x y }).spXTerm ∧
      (normalizeBallParams x y t b).spYTerm =
        (computeSpeed t { b with pos := normalizedPos x y }).spYTerm ∧
      (normalizeBallParams x y t b).oldPos =
        (computeSpeed t { b with pos := normalizedPos x y }).oldPos := ⟨rfl, rfl, rfl⟩

end Functions

section Real

/-- The rewards never leave the unit interval. -/
theorem abs_rX_le (b : BallParams ℝ) : |b.rX| ≤ 1 := abs_range_le _

theorem abs_rY_le (b : BallParams ℝ) : |b.rY| ≤ 1 := abs_range_le _

/-- The refresh of the speed at a fifth tick, with its constants multiplied out. -/
theorem computeSpeed_of_dvd {t : Nat} (ht : t % speedAveragerStep = 0) (b : BallParams ℝ) :
    (computeSpeed t b).speed = vMul 0.2 (vSub b.pos b.oldPos) ∧
      (computeSpeed t b).oldPos = b.pos := by
  rw [computeSpeed, if_pos ht]
  refine ⟨Vector2d.ext ?_ ?_, rfl⟩ <;>
  · simp only [vMul, vSub, invDeltaTime, deltaTime, invSpeedAveragerStep, speedAveragerStep,
      speedResizeFactor]
    norm_num
    ring

theorem computeSpeed_of_not_dvd {t : Nat} (ht : t % speedAveragerStep ≠ 0) (b : BallParams ℝ) :
    computeSpeed t b = b := if_neg ht

/-- The terms at a fifth tick. -/
theorem computeSpeed_terms {t : Nat} (ht : t % speedAveragerStep = 0) (b : BallParams ℝ) :
    (computeSpeed t b).spXTerm = 0.2 * |b.pos.x - b.oldPos.x| ∧
      (computeSpeed t b).spYTerm = 0.2 * |b.pos.y - b.oldPos.y| := by
  have hterms : (computeSpeed t b).spXTerm = |(computeSpeed t b).speed.x| ∧
      (computeSpeed t b).spYTerm = |(computeSpeed t b).speed.y| := by
    rw [computeSpeed, if_pos ht]
    exact ⟨fAbs_eq_abs _, fAbs_eq_abs _⟩
  have h02 : (0 : ℝ) < 0.2 := by norm_num
  rw [hterms.1, hterms.2, (computeSpeed_of_dvd ht b).1]
  simp only [vMul, vSub, abs_mul, abs_of_pos h02]
  exact ⟨trivial, trivial⟩

/-- The start-up loop fills both buffers, in whatever record `put` keeps them. -/
theorem fillBuffers_loop {σ : Type} (put : BallParams ℝ → σ) {body : σ → Fin 4 → σ}
    (h : ∀ b (i : Fin 4), body (put b) i = put { b with
      posBuffer := b.posBuffer.write i 1.0, speedBuffer := b.speedBuffer.write i 1.0 })
    (b : BallParams ℝ) : forLoop 4 body (put b) =
      put { b with posBuffer := fun _ => 1.0, speedBuffer := fun _ => 1.0 } := by
  let embed : CArray 4 (ℝ × ℝ) → σ := fun t =>
    put { b with posBuffer := fun i => (t i).1, speedBuffer := fun i => (t i).2 }
  have hcell : ∀ t i, body (embed t) i = embed (t.write i (1.0, 1.0)) := by
    intro t i
    simp only [embed, h, CArray.map_write]
  exact forLoop_cells embed (fun _ _ => (1.0, 1.0)) hcell fun i => (b.posBuffer i, b.speedBuffer i)

theorem abs_x_le_vNorm (v : Vector2d ℝ) : |v.x| ≤ vNorm v := by
  apply Real.abs_le_sqrt
  nlinarith [mul_self_nonneg v.y]

theorem abs_y_le_vNorm (v : Vector2d ℝ) : |v.y| ≤ vNorm v := by
  apply Real.abs_le_sqrt
  nlinarith [mul_self_nonneg v.x]

/-- The normalised position lies in the unit disc. -/
theorem vNorm_normalizedPos_le (x y : Int) : vNorm (normalizedPos x y : Vector2d ℝ) ≤ 1 := by
  have h1 : (1.0 : ℝ) = 1 := by norm_num
  unfold normalizedPos
  simp only [h1]
  split
  · next h =>
    set v : Vector2d ℝ := ⟨aX * x + bX, aY * y + bY⟩ with hv
    have hpos : 0 < vNorm v := lt_trans one_pos h
    have hsq : vNorm v * vNorm v = v.x * v.x + v.y * v.y :=
      Real.mul_self_sqrt (by nlinarith [mul_self_nonneg v.x, mul_self_nonneg v.y])
    apply Real.sqrt_le_one.mpr
    rw [div_mul_div_comm, div_mul_div_comm, ← add_div, ← hsq, div_self (by positivity)]
  · next h => exact not_lt.mp h

theorem abs_normalizedPos_le (x y : Int) :
    |(normalizedPos x y : Vector2d ℝ).x| ≤ 1 ∧ |(normalizedPos x y : Vector2d ℝ).y| ≤ 1 :=
  ⟨(abs_x_le_vNorm _).trans (vNorm_normalizedPos_le x y),
    (abs_y_le_vNorm _).trans (vNorm_normalizedPos_le x y)⟩

/-- Points of the disc are not pulled back. -/
theorem normalizedPos_of_mem {x y : Int} {q : Vector2d ℝ} (hx : aX * (x : ℝ) + bX = q.x)
    (hy : aY * (y : ℝ) + bY = q.y) (hq : vNorm q ≤ 1) : normalizedPos x y = q := by
  have h1 : ¬ vNorm q > 1.0 := by
    norm_num
    exact hq
  unfold normalizedPos
  rw [hx, hy]
  exact if_neg h1

theorem normalizedPos_middle : (normalizedPos 72 60 : Vector2d ℝ) = ⟨0, 0⟩ := by
  refine normalizedPos_of_mem ?_ ?_ ?_
  all_goals norm_num [vNorm, aX, bX, aY, bY, ballPosXMax, ballPosXMin, ballPosXCenter, ballPosYMax,
    ballPosYMin, ballPosYCenter]

/-- Before the first camera sample the tracked position is the corner (0, 0). -/
theorem normalizedPos_zero_mem :
    (0.779 < (normalizedPos 0 0 : Vector2d ℝ).x ∧ (normalizedPos 0 0 : Vector2d ℝ).x < 0.781) ∧
      (-0.627 < (normalizedPos 0 0 : Vector2d ℝ).y ∧ (normalizedPos 0 0 : Vector2d ℝ).y < -0.625) := by
  have hx : (aX * ((0 : Int) : ℝ) + bX : ℝ) = 72 / 53 := by
    norm_num [aX, bX, ballPosXMax, ballPosXMin, ballPosXCenter]
  have hy : (aY * ((0 : Int) : ℝ) + bY : ℝ) = -(12 / 11) := by
    norm_num [aY, bY, ballPosYMax, ballPosYMin, ballPosYCenter]
  have hlo : (1.742 : ℝ) < √(72 / 53 * (72 / 53) + -(12 / 11) * -(12 / 11)) :=
    Real.lt_sqrt_of_sq_lt (by norm_num)
  have hhi : √(72 / 53 * (72 / 53) + -(12 / 11) * -(12 / 11)) < 1.743 :=
    (Real.sqrt_lt' (by norm_num)).mpr (by norm_num)
  have h1 : (1.0 : ℝ) < √(72 / 53 * (72 / 53) + -(12 / 11) * -(12 / 11)) :=
    lt_trans (by norm_num) hlo
  simp only [normalizedPos, hx, hy, vNorm, libm_sqrt, gt_iff_lt, if_pos h1]
  generalize √(72 / 53 * (72 / 53) + -(12 / 11) * -(12 / 11) : ℝ) = n at hlo hhi
  have hn : 0 < n := by linarith
  refine ⟨⟨?_, ?_⟩, ?_, ?_⟩
  · rw [lt_div_iff₀ hn]; linarith
  · rw [div_lt_iff₀ hn]; linarith
  · rw [lt_div_iff₀ hn]; linarith
  · rw [div_lt_iff₀ hn]; linarith

end Real

end BallParams

end BallController
