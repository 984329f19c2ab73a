import BallController.Lib.BitField
import BallController.Lib.FixedPoint
import BallController.Prng

/-! `communication.c` and `common.h`: the packets both versions send to the
devices. A multicast packet is a key and a payload. The two halves of a motor
payload are the servo positions of the two axes. -/

namespace BallController
open Lib

/-- What `spin1_send_mc_packet` puts on the network. -/
structure Packet where
  key : Uint
  payload : Uint
deriving DecidableEq, Repr

/-- `STATE_UNBALANCED`, `STATE_BALANCED` and `STATE_SAVED`. -/
inductive Status where
  | unbalanced
  | balanced
  | saved
deriving DecidableEq, Repr

def mgmtBit : Uint := 0x400
def evds1Enable : Uint := 0x45
def motorsKey : Uint := (252#32 <<< 24) ||| (255#32 <<< 16)

def motorMin : Int := 1500
def motorMax : Int := 2500
def motorDelta : Int := (motorMax - motorMin) / 2
def motorXCenter : Int := 2150
def motorYCenter : Int := 2000

/-- The conversion of an `int` to `uint`. -/
def toUint (i : Int) : Uint := BitVec.ofInt 32 i

def startDevices : List Packet :=
  [⟨motorsKey, toUint motorYCenter ||| (toUint motorXCenter <<< 16)⟩, ⟨evds1Enable ||| mgmtBit, 1⟩]

def sendMotorCommand (motorX motorY : Uint) : Packet := ⟨motorsKey, motorY ||| (motorX <<< 16)⟩

/-! ## Two halves of a payload -/

def loHalf : BitField := ⟨0, 16⟩
def hiHalf : BitField := ⟨16, 16⟩

theorem toNat_toUint {i : Int} (h0 : 0 ≤ i) (h1 : i < 2 ^ 32) : ((toUint i).toNat : Int) = i := by
  simp only [toUint, BitVec.toNat_ofInt]
  omega

theorem toInt_toUint {i : Int} (h : -2 ^ 31 ≤ i ∧ i < 2 ^ 31) : (toUint i).toInt = i := by
  rw [toUint, BitVec.toInt_ofInt]
  exact Int.bmod_eq_of_le (by omega) (by omega)

theorem toUint_natCast (n : Nat) : toUint (n : Int) = BitVec.ofNat 32 n := by
  simp [toUint]

theorem shiftRight_eq_get (x : Uint) : x >>> 16 = hiHalf.get x :=
  (BitField.get_top (f := hiHalf) (by decide) x).symm

theorem mask_eq_get (x : Uint) : x &&& 0xFFFF#32 = loHalf.get x :=
  (BitField.get_bottom (f := loHalf) rfl x).symm

/-- Two values of 16 bits, OR-ed together, are both read back. -/
theorem halves {hi lo : Uint} (hhi : hiHalf.Fits hi) (hlo : loHalf.Fits lo) :
    (lo ||| (hi <<< 16)) >>> 16 = hi ∧ (lo ||| (hi <<< 16)) &&& 0xFFFF#32 = lo := by
  have hp : lo ||| (hi <<< 16) = loHalf.put lo ||| hiHalf.put hi := by
    simp [BitField.put, loHalf, hiHalf]
  have hd : hiHalf.Disjoint loHalf := by decide
  have hd' : loHalf.Disjoint hiHalf := by decide
  rw [hp, shiftRight_eq_get, mask_eq_get, BitField.get_or, BitField.get_or,
    BitField.get_put_disjoint hd hlo, BitField.get_put_disjoint hd' hhi,
    BitField.get_put_self hhi (by decide), BitField.get_put_self hlo (by decide)]
  exact ⟨BitVec.zero_or, BitVec.or_zero⟩

section Motors

variable {α : Type} [Field α] [LinearOrder α] [FloorRing α]

/-- The servo position of a normalised command: the two arguments that
`sendNormMotorCommand` computes. -/
def servoX (x : α) : Int := trunc (x * motorDelta) + motorXCenter

def servoY (y : α) : Int := trunc (y * motorDelta) + motorYCenter

def sendNormMotorCommand (x y : α) : Packet := sendMotorCommand (toUint (servoX x)) (toUint (servoY y))

variable [IsStrictOrderedRing α]

private theorem trunc_motorDelta {x : α} (h : |x| ≤ 1) :
    -500 ≤ trunc (x * motorDelta) ∧ trunc (x * motorDelta) ≤ 500 := by
  obtain ⟨h1, h2⟩ := abs_le.mp h
  have hd : ((motorDelta : Int) : α) = 500 := by norm_num [motorDelta, motorMax, motorMin]
  rw [hd]
  constructor
  · exact le_trunc (by decide) (by push_cast; linarith)
  · exact trunc_le (by decide) (by push_cast; linarith)

theorem servoX_mem {x : α} (h : |x| ≤ 1) : 1650 ≤ servoX x ∧ servoX x ≤ 2650 := by
  obtain ⟨h1, h2⟩ := trunc_motorDelta h
  simp only [servoX, motorXCenter]
  omega

theorem servoY_mem {y : α} (h : |y| ≤ 1) : motorMin ≤ servoY y ∧ servoY y ≤ motorMax := by
  obtain ⟨h1, h2⟩ := trunc_motorDelta h
  simp only [servoY, motorYCenter, motorMin, motorMax]
  omega

/-- The X centre is 150 off the middle of the servo range: the command fits
exactly below 0.702 of the normalised range. -/
theorem servoX_le_motorMax_iff {x : α} : servoX x ≤ motorMax ↔ x < 0.702 := by
  have hd : ((motorDelta : Int) : α) = 500 := by norm_num [motorDelta, motorMax, motorMin]
  have h := trunc_lt_iff (x := x * (motorDelta : Int)) (n := 351) (by decide)
  have hs : servoX x ≤ motorMax ↔ trunc (x * (motorDelta : Int)) < 351 := by
    simp only [servoX, motorXCenter, motorMax]
    omega
  have hlim : (0.702 : α) = 351 / 500 := by norm_num
  rw [hs, h, hd, hlim, lt_div_iff₀ (by norm_num)]
  push_cast
  rfl

/-- The packet `p` carries the two servo positions of the normalised command
`c`, and both are positions the motors accept. -/
structure ServoOk (c : α × α) (p : Packet) : Prop where
  hi : ((p.payload >>> 16).toNat : Int) = servoX c.1
  lo : ((p.payload &&& 0xFFFF#32).toNat : Int) = servoY c.2
  x_mem : motorMin ≤ servoX c.1 ∧ servoX c.1 ≤ motorMax
  y_mem : motorMin ≤ servoY c.2 ∧ servoY c.2 ≤ motorMax

/-- A command of the normalised range is always transmitted exactly; it is
accepted when its X component is below 0.702, and only then. -/
theorem servoOk_iff {x y : α} (hx : |x| ≤ 1) (hy : |y| ≤ 1) :
    ServoOk (x, y) (sendNormMotorCommand x y) ↔ x < 0.702 := by
  refine ⟨fun h => servoX_le_motorMax_iff.mp h.x_mem.2, fun h => ?_⟩
  have hX := servoX_mem hx
  have hY := servoY_mem hy
  simp only [motorMin, motorMax] at hY
  have eX := toNat_toUint (i := servoX x) (by omega) (by omega)
  have eY := toNat_toUint (i := servoY y) (by omega) (by omega)
  have fX : hiHalf.Fits (toUint (servoX x)) := by simp only [BitField.Fits, hiHalf]; omega
  have fY : loHalf.Fits (toUint (servoY y)) := by simp only [BitField.Fits, loHalf]; omega
  obtain ⟨hhi, hlo⟩ := halves fX fY
  exact ⟨(congrArg (fun u : Uint => (u.toNat : Int)) hhi).trans eX,
    (congrArg (fun u : Uint => (u.toNat : Int)) hlo).trans eY,
    ⟨by simp only [motorMin]; omega, servoX_le_motorMax_iff.mpr h⟩, servoY_mem hy⟩

/-- A list of normalised commands, each with the packet sent for it. -/
theorem forall_servoOk_iff {cmds : List (α × α)} (h : ∀ c ∈ cmds, |c.1| ≤ 1 ∧ |c.2| ≤ 1) :
    List.Forall₂ ServoOk cmds (cmds.map fun c => sendNormMotorCommand c.1 c.2) ↔
      ∀ c ∈ cmds, c.1 < 0.702 := by
  rw [List.forall₂_map_right_iff, List.forall₂_same]
  exact forall₂_congr fun c hc => servoOk_iff (h c hc).1 (h c hc).2

end Motors

/-- The packets for the motors among those sent. -/
def motorPackets (sent : List Packet) : List Packet := sent.filter fun p => p.key = motorsKey

theorem motorPackets_commands {α : Type} [Field α] [LinearOrder α] [FloorRing α]
    (cmds : List (α × α)) :
    motorPackets (cmds.map fun c => sendNormMotorCommand c.1 c.2) =
      cmds.map fun c => sendNormMotorCommand c.1 c.2 := by
  apply List.filter_eq_self.mpr
  intro p hp
  obtain ⟨c, _, rfl⟩ := List.mem_map.mp hp
  simp [sendNormMotorCommand, sendMotorCommand]

/-- The start-up sends the command that levels the plate. -/
theorem motorPackets_startDevices {α : Type} [Field α] [LinearOrder α] [FloorRing α]
    [IsStrictOrderedRing α] : motorPackets startDevices = [sendNormMotorCommand (0 : α) 0] := by
  have h : motorPackets startDevices =
      [⟨motorsKey, toUint motorYCenter ||| (toUint motorXCenter <<< 16)⟩] := by decide
  rw [h]
  simp [sendNormMotorCommand, sendMotorCommand, servoX, servoY]

@[simp] theorem motorPackets_append (l l' : List Packet) :
    motorPackets (l ++ l') = motorPackets l ++ motorPackets l' := List.filter_append l l'

end BallController
