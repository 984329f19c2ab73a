import BallController.Axis
import BallController.Communication
import BallController.Lib.Loop
import BallController.Tracker

/-! `parallel/network.c`. Every core runs the same program, so one record holds
the globals of a core, whether it is the master or a slave. A slave is one
population; the master keeps an array of their reports. -/

namespace BallController.Parallel
open Lib Spin1Math

/-- `N_MFM`. -/
def nMFM : Nat := 59

instance : Nonempty (Fin nMFM) := ⟨⟨0, by decide⟩⟩

@[ext]
structure Core (α G : Type) where
  tracker : Tracker
  state : Status
  simCount : Int
  nodeCounter : Uint
  oldVX : α
  oldVY : α
  errorX : α
  errorY : α
  ball : BallParams α
  chipID : Uint
  coreID : Uint
  vXArray : CArray nMFM α
  vYArray : CArray nMFM α
  aThetaArray : CArray nMFM α
  aPsiArray : CArray nMFM α
  eX : α
  eY : α
  wVX : α
  wVY : α
  wATheta : α
  wAPsi : α
  fX : α
  fY : α
  center : Vector2d α
  counter : Uint
  n : Vector2d α
  /-- the state of `rand` -/
  gen : G
  /-- whether `TIMER_TICK` has its callback -/
  timerOn : Bool
  /-- the packets sent so far, oldest first -/
  sent : List Packet

/-- `ERROR_MSG`: key [A (4) | 0 (10) | signs (2) | x (8) | y (8)]. The counter
travels in the 10 bits that the header calls 0. -/
def errorMsg : Uint := 0xA0000000

/-- `UPD_MSG`: key [4 (2) | signs (4) | index (6) | v_y (10) | v_x (10)]. -/
def updMsg : Uint := 0x40000000

/-- The locals of `rec_upd`: the slot and the four values before scaling. -/
structure UpdLocals (α : Type) where
  index : Nat
  vX : α
  vY : α
  theta : α
  psi : α

namespace Core

variable {α G : Type} [Field α] [LinearOrder α] [FloorRing α] [Libm α] [Prng G]

/-- Static initialisation. -/
def globals (α G : Type) [Field α] [LinearOrder α] [Prng G] : Core α G where
  tracker := Tracker.init
  state := .unbalanced
  simCount := 1
  nodeCounter := 0
  oldVX := 0.0
  oldVY := 0.0
  errorX := 1.0
  errorY := 1.0
  ball := BallParams.globals
  chipID := 0
  coreID := 0
  vXArray := 0
  vYArray := 0
  aThetaArray := 0
  aPsiArray := 0
  eX := 0.0
  eY := 0.0
  wVX := 0.0
  wVY := 0.0
  wATheta := 0.0
  wAPsi := 0.0
  fX := 0.0
  fY := 0.0
  center := ⟨0, 0⟩
  counter := 0
  n := ⟨0, 0⟩
  gen := Prng.srand 1
  timerOn := false
  sent := []

def send (p : Packet) (c : Core α G) : Core α G := { c with sent := c.sent ++ [p] }

def phiMFMX (c : Core α G) : α := c.fX

def phiMFMY (c : Core α G) : α := c.fY

/-! ## Messages -/

/-- The counter that `send_err` writes back. -/
def nextCounter (c : Core α G) : Uint := (c.counter + 1) % 50

def sendErrPacket (xPos yPos : Uint) (c : Core α G) : Packet :=
  let key := errorMsg ||| (xPos <<< 8) ||| yPos
  let payload : Uint := 0
  let (key, payload) := if c.errorX < 0.0 then
      (key ||| (1#32 <<< 17), payload ||| (toUint (trunc (-c.errorX * 10000.0)) <<< 16))
    else (key, payload ||| (toUint (trunc (c.errorX * 10000.0)) <<< 16))
  let (key, payload) := if c.errorY < 0.0 then
      (key ||| (1#32 <<< 16), payload ||| toUint (trunc (-c.errorY * 10000.0)))
    else (key, payload ||| toUint (trunc (c.errorY * 10000.0)))
  ⟨key ||| (c.nextCounter <<< 20), payload⟩

def sendErr (xPos yPos : Uint) (c : Core α G) : Core α G :=
  { c with counter := c.nextCounter, sent := c.sent ++ [c.sendErrPacket xPos yPos] }

def errX (key payload : Uint) : α :=
  if (key >>> 17) &&& 0x00000001#32 ≠ 0 then -(((payload >>> 16).toNat : α)) / 10000.0
  else ((payload >>> 16).toNat : α) / 10000.0

def errY (key payload : Uint) : α :=
  if (key >>> 16) &&& 0x00000001#32 ≠ 0 then -(((payload &&& 0x0000FFFF#32).toNat : α)) / 10000.0
  else ((payload &&& 0x0000FFFF#32).toNat : α) / 10000.0

/-- The position that `rec_err` passes to `normalizeBallParams`. -/
def errPos (key : Uint) : Int × Int :=
  (((key >>> 8) &&& 0x000000FF#32).toInt, (key &&& 0x000000FF#32).toInt)

/-- `==` binds tighter than `&` in the sign tests of `rec_err`: they mask with
`1 == 1`, and a nonzero result counts as true. -/
def recErr (key payload : Uint) (simTime : Nat) (c : Core α G) : Core α G :=
  let pos := errPos key
  { c with
    ball := c.ball.normalizeBallParams pos.1 pos.2 simTime
    errorX := errX key payload
    errorY := errY key payload }

/-- The four reported values, before coding. -/
def updVX (c : Core α G) : α := range (c.wVX * c.phiMFMX) (-1.0) 1.0
def updVY (c : Core α G) : α := range (c.wVY * c.phiMFMY) (-1.0) 1.0
def updTheta (c : Core α G) : α := range (c.wATheta * c.phiMFMX) (-1.0) 1.0
def updPsi (c : Core α G) : α := range (c.wAPsi * c.phiMFMY) (-1.0) 1.0

def sendUpdPacket (c : Core α G) : Packet :=
  let key := updMsg
  let payload : Uint := 0
  let index := coreNb (chipYOf c.chipID) (chipXOf c.chipID) c.coreID
  let key := if c.updVY < 0.0 then
      key ||| (1#32 <<< 29) ||| (toUint (trunc (-c.updVY * 1000.0)) <<< 10)
    else key ||| (toUint (trunc (c.updVY * 1000.0)) <<< 10)
  let key := if c.updVX < 0.0 then
      key ||| (1#32 <<< 28) ||| toUint (trunc (-c.updVX * 1000.0))
    else key ||| toUint (trunc (c.updVX * 1000.0))
  let (key, payload) := if c.updTheta < 0.0 then
      (key ||| (1#32 <<< 27), payload ||| (toUint (trunc (-c.updTheta * 10000.0)) <<< 16))
    else (key, payload ||| (toUint (trunc (c.updTheta * 10000.0)) <<< 16))
  let (key, payload) := if c.updPsi < 0.0 then
      (key ||| (1#32 <<< 26), payload ||| toUint (trunc (-c.updPsi * 10000.0)))
    else (key, payload ||| toUint (trunc (c.updPsi * 10000.0)))
  ⟨key ||| (index <<< 20), payload⟩

def sendUpd (c : Core α G) : Core α G := c.send c.sendUpdPacket

def recUpdLocals (key payload : Uint) : UpdLocals α :=
  let vX : α := (key &&& 0x000003FF#32).toNat
  let vY : α := ((key >>> 10) &&& 0x000003FF#32).toNat
  let theta : α := (payload >>> 16).toNat
  let psi : α := (payload &&& 0x0000FFFF#32).toNat
  { index := ((key >>> 20) &&& 0x0000003F#32).toNat
    vX := if (key >>> 28) &&& 0x00000001#32 = 1 then -vX else vX
    vY := if (key >>> 29) &&& 0x00000001#32 = 1 then -vY else vY
    theta := if (key >>> 27) &&& 0x00000001#32 = 1 then -theta else theta
    psi := if (key >>> 26) &&& 0x00000001#32 = 1 then -psi else psi }

/-- `V_y_array` is not written: that line of the source is commented out. A number
past the arrays is not checked, and the stores then hit the globals behind them;
here they change no cell, and `Core.eventMasterWith` makes their effect a
parameter. -/
def recUpd (key payload : Uint) (c : Core α G) : Core α G :=
  let l : UpdLocals α := recUpdLocals key payload
  { c with
    vXArray := c.vXArray.write l.index (l.vX / 1000.0)
    aThetaArray := c.aThetaArray.write l.index (l.theta / 10000.0)
    aPsiArray := c.aPsiArray.write l.index (l.psi / 10000.0) }

/-! ## Initialisation -/

def IsMaster (chipID coreID : Uint) : Prop := chipID = 0 ∧ coreID = 1

instance (chipID coreID : Uint) : Decidable (IsMaster chipID coreID) :=
  inferInstanceAs (Decidable (_ ∧ _))

def initMFM (c : Core α G) : Core α G := { c with center := centerOf c.chipID c.coreID }

def initBuffers (c : Core α G) (i : Fin 4) : Core α G :=
  let posBuffer := c.ball.posBuffer.write i 1.0
  let speedBuffer := c.ball.speedBuffer.write i 1.0
  { c with ball := { c.ball with posBuffer := posBuffer, speedBuffer := speedBuffer } }

def initParams (c : Core α G) : Core α G :=
  let wVX := initWeight (α := α) c.gen
  let wVY := initWeight (α := α) wVX.2
  let wATheta := initWeight (α := α) wVY.2
  let wAPsi := initWeight (α := α) wATheta.2
  let c := { c with
    wVX := wVX.1, wVY := wVY.1, wATheta := wATheta.1, wAPsi := wAPsi.1, gen := wAPsi.2 }
  if IsMaster c.chipID c.coreID then forLoop 4 initBuffers c else c

def initNetwork (chipIDs coreIDs : Uint) (c : Core α G) : Core α G :=
  let c := { c with
    chipID := chipIDs
    coreID := coreIDs
    ball := { c.ball with pos := ⟨-1.0, 0.0⟩, oldPos := ⟨-1.0, 0.0⟩, speed := ⟨0.0, 0.0⟩ }
    n := ⟨0.0, 0.0⟩
    gen := Prng.srand (coreNb (chipYOf chipIDs) (chipXOf chipIDs) coreIDs + 1) }
  initParams (initMFM c)

/-! ## Populations -/

def mfm (c : Core α G) : Core α G :=
  let distance := vSub c.ball.pos c.center
  let distX := fAbs distance.x
  let distY := fAbs distance.y
  let iExt := (2.0 - distX) / 2.0
  let dv := (-c.fX + IF iExt) * tauM
  let c := { c with fX := c.fX + dv }
  let iExt := (2.0 - distY) / 2.0
  let dv := (-c.fY + IF iExt) * tauM
  { c with fY := c.fY + dv }

/-! ## Critic -/

def vX (c : Core α G) : α := forLoop nMFM (fun v i => v + c.vXArray i) 0 / (nMFM : α)

/-- The loop of `V_y` is commented out in the source. -/
def vY (_ : Core α G) : α := 0.0 / (nMFM : α)

def updateError (xPos yPos : Uint) (simTime : Nat) (c : Core α G) : Core α G :=
  let c := { c with ball := c.ball.normalizeBallParams xPos.toInt yPos.toInt simTime }
  let r := c.ball.rX
  let currV := invDeltaTime * c.vX
  let errorX := r + gamma * currV - c.oldVX
  let c := { c with errorX := range errorX (-1.0) 1.0, oldVX := currV }
  let r := c.ball.rY
  let currV := invDeltaTime * c.vY
  let errorY := r + gamma * currV - c.oldVY
  { c with errorY := range errorY (-1.0) 1.0, oldVY := currV }

def updateV (c : Core α G) : Core α G :=
  let c := { c with eX := lambda * gamma * c.eX + c.phiMFMX }
  let c := { c with wVX := c.wVX + learningRateV * c.errorX * c.eX }
  let c := { c with eY := lambda * gamma * c.eY + c.phiMFMY }
  { c with wVY := c.wVY + learningRateV * c.errorY * c.eY }

/-! ## Actor -/

def sigmaX (c : Core α G) : α := sigmaOf c.oldVX

def sigmaY (c : Core α G) : α := sigmaOf c.oldVY

/-- `n = noise();` -/
def drawNoise (c : Core α G) : Core α G :=
  { c with n := (noise c.gen).1, gen := (noise (α := α) c.gen).2 }

/-- `theta` and `psi` of `move` before the noise is added. -/
def actorMeans (c : Core α G) : α × α :=
  let sums := forLoop nMFM (fun p i => (p.1 + c.aThetaArray i, p.2 + c.aPsiArray i)) ((0, 0) : α × α)
  (sums.1 / (nMFM : α), sums.2 / (nMFM : α))

/-- `theta` and `psi` of `move` before they are clamped. -/
def actorOutputs (c : Core α G) : α × α :=
  (c.actorMeans.1 + c.sigmaX * c.n.x, c.actorMeans.2 + c.sigmaY * c.n.y)

/-- The stop condition and the impulse are commented out in the source. -/
def move (c : Core α G) : Core α G × Status :=
  let c := c.drawNoise
  let theta := range c.actorOutputs.1 (-1.0) 1.0
  let psi := range c.actorOutputs.2 (-1.0) 1.0
  (c.send (sendNormMotorCommand theta psi), .unbalanced)

/-- The body of `update_A` after `n = noise();`. -/
def updateABody (c : Core α G) : Core α G :=
  let c := { c with wATheta := c.wATheta - learningRateA * c.errorX * c.n.x * c.phiMFMX }
  { c with wAPsi := c.wAPsi - learningRateA * c.errorY * c.n.y * c.phiMFMY }

def updateA (c : Core α G) : Core α G := c.drawNoise.updateABody

end Core

end BallController.Parallel
