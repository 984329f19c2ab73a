import BallController.Lib.Machine
import BallController.Parallel.Network

/-! `parallel/BallController.c`: the handlers of the master and of the slaves,
and the start-up of a core. -/

namespace BallController.Parallel
open Lib Spin1Math

/-- `SAVE_STEP`. -/
def saveStep : Nat := 2000

namespace Core

variable {α G : Type} [Field α] [LinearOrder α] [FloorRing α] [Libm α] [Prng G]

/-! ## The master -/

/-- The state in which the tick calls `move`. -/
def beforeMove (simTime : Nat) (c : Core α G) : Core α G :=
  c.updateError (toUint c.tracker.xPos) (toUint c.tracker.yPos) simTime

/-- The state in which the tick calls `send_err`. -/
def beforeSend (simTime : Nat) (c : Core α G) : Core α G :=
  { (c.beforeMove simTime).move.1 with state := (c.beforeMove simTime).move.2 }

def update (simTime : Nat) (c : Core α G) : Core α G :=
  let c := if c.state = .unbalanced then
      (c.beforeSend simTime).sendErr (toUint c.tracker.xPos) (toUint c.tracker.yPos)
    else c
  if c.state = .balanced ∨ (c.state ≠ .saved ∧ simTime % saveStep = 0) then
    { c with state := .saved, timerOn := false }
  else c

def eventMaster (key payload : Uint) (now : Nat) (c : Core α G) : Core α G :=
  if key &&& 0xC0000000#32 = updMsg then c.recUpd key payload
  else if polOfKey key = 1 ∧ now ≠ 0 then
    { c with tracker := c.tracker.computePos α (xOfKey key) (yOfKey key) }
  else c

/-! ## The slaves -/

/-- The condition of `eventNode`. -/
def IsNewError (key : Uint) (c : Core α G) : Prop :=
  key &&& 0xF0000000#32 = errorMsg ∧ (key >>> 20) &&& 0x000000FF#32 ≠ c.nodeCounter

instance (key : Uint) (c : Core α G) : Decidable (IsNewError key c) :=
  inferInstanceAs (Decidable (_ ∧ _))

def eventNode (key payload : Uint) (c : Core α G) : Core α G :=
  if IsNewError key c then
    let c := { c with simCount := c.simCount + 1, nodeCounter := (key >>> 20) &&& 0x000000FF#32 }
    ((c.recErr key payload c.simCount.toNat).mfm.updateA).updateV.sendUpd
  else c

/-! ## Start-up -/

def cMain (α G : Type) [Field α] [LinearOrder α] [FloorRing α] [Libm α] [Prng G]
    (chipID coreID : Uint) : Core α G :=
  let c := globals α G
  let c := if IsMaster chipID coreID then { c with sent := startDevices } else c
  let c := c.initNetwork chipID coreID
  let c := if IsMaster chipID coreID then { c with timerOn := true } else c
  { c with gen := Prng.srand 0 }

end Core

/-! ## The cores -/

/-- The cores that the `run` script starts: 1 to 15 of four chips. -/
def cores : List (Uint × Uint) :=
  [0, 1, 256, 257].flatMap fun chipID =>
    (List.range' 1 15).map fun coreID => (chipID, BitVec.ofNat 32 coreID)

def slaves : List (Uint × Uint) := cores.filter fun p => ¬Core.IsMaster p.1 p.2

/-- The number under which a core reports. -/
def slot (p : Uint × Uint) : Nat := (coreNb (chipYOf p.1) (chipXOf p.1) p.2).toNat

theorem slaves_length : slaves.length = 59 := by decide

theorem slaves_not_master : ∀ p ∈ slaves, ¬Core.IsMaster p.1 p.2 := forall_mem_of_all (by decide)

theorem slot_lt : ∀ p ∈ slaves, slot p < 64 := forall_mem_of_all (by decide)

/-- The numbering is injective, ... -/
theorem slot_injective : ∀ p ∈ slaves, ∀ q ∈ slaves, slot p = slot q → p = q := by
  have h : (slaves.map slot).Nodup := by decide
  exact fun p hp q hq => List.inj_on_of_nodup_map h hp hq

/-- ... but not onto the first 59 numbers: it starts at 1 and goes up to 62. -/
theorem slot_lt_nMFM_iff : ∀ p ∈ slaves, slot p < nMFM ↔ ¬(p.1 = 257 ∧ 12 ≤ p.2.toNat) :=
  forall_mem_of_all (by decide)

/-! ## The master as a machine -/

inductive MasterEvent where
  | packet (key payload : Uint) (now : Nat)
  | tick (simTime : Nat)
deriving DecidableEq, Repr

section Runs

variable {α G : Type} [Field α] [LinearOrder α] [FloorRing α] [Libm α] [Prng G]

/-- Any packet may arrive at any time: a camera event or an UPD message. After
`spin1_callback_off` no tick is delivered. -/
def masterStep (c : Core α G) : MasterEvent → Core α G
  | .packet key payload now => c.eventMaster key payload now
  | .tick simTime => if c.timerOn then c.update simTime else c

/-- The master after `c_main`: core 1 of chip 0. -/
def masterStart (α G : Type) [Field α] [LinearOrder α] [FloorRing α] [Libm α] [Prng G] : Core α G :=
  Core.cMain α G 0 1

def masterRun (α G : Type) [Field α] [LinearOrder α] [FloorRing α] [Libm α] [Prng G]
    (evs : List MasterEvent) : Core α G :=
  exec masterStep (masterStart α G) evs

end Runs

end BallController.Parallel
