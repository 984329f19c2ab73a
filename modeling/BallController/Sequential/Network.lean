import BallController.Axis
import BallController.Communication
import BallController.Lib.Loop
import BallController.Tracker

/-! `sequential/network.c`. One core runs all populations; the state below is
the globals of the program. `N` is `N_MFM`, the size of the arrays and the bound
of the loops. -/

namespace BallController.Sequential
open Lib Spin1Math

/-- `N_MFM`. -/
def nMFM : Nat := 64

instance : Nonempty (Fin nMFM) := ⟨⟨0, by decide⟩⟩

@[ext]
structure State (N : Nat) (α G : Type) where
  tracker : Tracker
  oldTime : Int
  state : Status
  oldVX : α
  oldVY : α
  errorX : α
  errorY : α
  ball : BallParams α
  center : CArray N (Vector2d α)
  eXArray : CArray N α
  eYArray : CArray N α
  wVXArray : CArray N α
  wVYArray : CArray N α
  wAThetaArray : CArray N α
  wAPsiArray : CArray N α
  fX : CArray N α
  fY : CArray N α
  n : Vector2d α
  /-- the state of `rand` -/
  gen : G
  /-- whether `TIMER_TICK` has its callback -/
  timerOn : Bool
  /-- the packets sent so far, oldest first -/
  sent : List Packet

namespace State

variable {N : Nat} {α G : Type} [Field α] [LinearOrder α] [FloorRing α] [Libm α] [Prng G]

/-- Static initialisation. -/
def globals (N : Nat) (α G : Type) [Field α] [LinearOrder α] [Prng G] : State N α G where
  tracker := Tracker.init
  oldTime := -1
  state := .unbalanced
  oldVX := 0.0
  oldVY := 0.0
  errorX := 1.0
  errorY := 1.0
  ball := BallParams.globals
  center := fun _ => ⟨0, 0⟩
  eXArray := 0
  eYArray := 0
  wVXArray := 0
  wVYArray := 0
  wAThetaArray := 0
  wAPsiArray := 0
  fX := 0
  fY := 0
  n := ⟨0, 0⟩
  gen := Prng.srand 1
  timerOn := false
  sent := []

def send (p : Packet) (s : State N α G) : State N α G := { s with sent := s.sent ++ [p] }

/-! ## Initialisation -/

def initMFM (chipID coreID : Uint) (s : State N α G) : State N α G :=
  let index := coreNb (chipYOf chipID) (chipXOf chipID) coreID
  { s with center := s.center.write index.toNat (centerOf chipID coreID) }

def initWeights (s : State N α G) (i : Fin N) : State N α G :=
  let wVX := initWeight (α := α) s.gen
  let wVY := initWeight (α := α) wVX.2
  let wATheta := initWeight (α := α) wVY.2
  let wAPsi := initWeight (α := α) wATheta.2
  { s with
    wVXArray := s.wVXArray.write i wVX.1
    wVYArray := s.wVYArray.write i wVY.1
    wAThetaArray := s.wAThetaArray.write i wATheta.1
    wAPsiArray := s.wAPsiArray.write i wAPsi.1
    gen := wAPsi.2 }

def initBuffers (s : State N α G) (i : Fin 4) : State N α G :=
  let posBuffer := s.ball.posBuffer.write i 1.0
  let speedBuffer := s.ball.speedBuffer.write i 1.0
  { s with ball := { s.ball with posBuffer := posBuffer, speedBuffer := speedBuffer } }

def initParams (s : State N α G) : State N α G :=
  forLoop 4 initBuffers (forLoop N initWeights s)

/-- The chips of `init_network`: (0, 0), (0, 1), (1, 0) and (1, 1). -/
def chipsID : List Uint := [0, 1, 256, 257]

/-- The pairs over which the two loops of `init_network` call `init_MFM`. -/
def initPairs : List (Uint × Uint) :=
  chipsID.flatMap fun chipID => (List.range 16).map fun coreID => (chipID, BitVec.ofNat 32 coreID)

def initNetwork (noiseSeed : Uint) (s : State N α G) : State N α G :=
  let s := { s with
    ball := { s.ball with pos := ⟨-1.0, 0.0⟩, oldPos := ⟨-1.0, 0.0⟩, speed := ⟨0.0, 0.0⟩ }
    n := ⟨0.0, 0.0⟩
    gen := Prng.srand noiseSeed }
  initParams (initPairs.foldl (fun s p => initMFM p.1 p.2 s) s)

/-! ## Populations -/

def mfmBody (s : State N α G) (index : Fin N) : State N α G :=
  let distance := vSub s.ball.pos (s.center index)
  let distX := fAbs distance.x
  let distY := fAbs distance.y
  let iExt := (2.0 - distX) / 2.0
  let dv := (-s.fX index + IF iExt) * tauM
  let s := { s with fX := s.fX.write index (s.fX index + dv) }
  let iExt := (2.0 - distY) / 2.0
  let dv := (-s.fY index + IF iExt) * tauM
  { s with fY := s.fY.write index (s.fY index + dv) }

def mfm (s : State N α G) : State N α G := forLoop N mfmBody s

def phiMFMX (s : State N α G) (index : Fin N) : α := s.fX index

def phiMFMY (s : State N α G) (index : Fin N) : α := s.fY index

/-! ## Critic -/

def vX (s : State N α G) : α :=
  forLoop N (fun v i => v + s.wVXArray i * s.phiMFMX i) 0 / (N : α)

def vY (s : State N α G) : α :=
  forLoop N (fun v i => v + s.wVYArray i * s.phiMFMY i) 0 / (N : α)

def updateError (xPos yPos : Int) (simTime : Nat) (s : State N α G) : State N α G :=
  let s := { s with ball := s.ball.normalizeBallParams xPos yPos simTime }
  let r := s.ball.rX
  let currV := invDeltaTime * s.vX
  let s := { s with errorX := r + gamma * currV - s.oldVX, oldVX := currV }
  let r := s.ball.rY
  let currV := invDeltaTime * s.vY
  { s with errorY := r + gamma * currV - s.oldVY, oldVY := currV }

def updateVBody (s : State N α G) (i : Fin N) : State N α G :=
  let s := { s with eXArray := s.eXArray.write i (lambda * gamma * s.eXArray i + s.phiMFMX i) }
  let wVX := s.wVXArray i + learningRateV * s.errorX * s.eXArray i
  let s := { s with wVXArray := s.wVXArray.write i wVX }
  let s := { s with eYArray := s.eYArray.write i (lambda * gamma * s.eYArray i + s.phiMFMY i) }
  let wVY := s.wVYArray i + learningRateV * s.errorY * s.eYArray i
  { s with wVYArray := s.wVYArray.write i wVY }

def updateV (s : State N α G) : State N α G := forLoop N updateVBody s

/-! ## Actor -/

def sigmaX (s : State N α G) : α := sigmaOf s.oldVX

def sigmaY (s : State N α G) : α := sigmaOf s.oldVY

/-- `theta` and `psi` of `move` before they are clamped. -/
def actorOutputs (s : State N α G) : α × α :=
  let sums := forLoop N (fun p i =>
    (p.1 + s.wAThetaArray i * s.phiMFMX i, p.2 + s.wAPsiArray i * s.phiMFMY i)) ((0, 0) : α × α)
  (sums.1 / (N : α) + s.sigmaX * s.n.x, sums.2 / (N : α) + s.sigmaY * s.n.y)

def move (simTime : Nat) (s : State N α G) : State N α G × Status :=
  let theta := range s.actorOutputs.1 (-1.0) 1.0
  let psi := range s.actorOutputs.2 (-1.0) 1.0
  if simTime > 300 ∧ s.ball.avgPos < 0.15 ∧ s.ball.avgSpeed < 0.03 then
    (s.send (sendNormMotorCommand (0.0 : α) 0.0), .balanced)
  else if simTime % resetStep = 0 then
    if vNorm s.ball.pos > 0.6 then
      (s.send (sendNormMotorCommand s.ball.pos.x s.ball.pos.y), .unbalanced)
    else (s, .unbalanced)
  else (s.send (sendNormMotorCommand theta psi), .unbalanced)

/-- `n = noise();` -/
def drawNoise (s : State N α G) : State N α G :=
  { s with n := (noise s.gen).1, gen := (noise (α := α) s.gen).2 }

def updateABody (s : State N α G) (i : Fin N) : State N α G :=
  let wATheta := s.wAThetaArray i - learningRateA * s.errorX * s.n.x * s.phiMFMX i
  let s := { s with wAThetaArray := s.wAThetaArray.write i wATheta }
  let wAPsi := s.wAPsiArray i - learningRateA * s.errorY * s.n.y * s.phiMFMY i
  { s with wAPsiArray := s.wAPsiArray.write i wAPsi }

def updateA (s : State N α G) : State N α G := forLoop N updateABody s.drawNoise

end State

end BallController.Sequential
