import BallController.Lib.Machine
import BallController.Sequential.Network

/-! `sequential/BallController.c`: the two event handlers, the start-up and the
runs. The environment chooses the order of the events, the camera keys and the
times; `spin1_get_simulation_time()` is the `now` of a camera event. -/

namespace BallController.Sequential
open Lib Spin1Math

/-- `SAVE_STEP`. -/
def saveStep : Nat := 5000

namespace State

variable {N : Nat} {α G : Type} [Field α] [LinearOrder α] [FloorRing α] [Libm α] [Prng G]

def computePos (xCur yCur : Int) (simTime : Int) (s : State N α G) : State N α G :=
  { s with
    tracker := s.tracker.computePos α xCur yCur
    oldTime := if s.tracker.Accepts α xCur yCur then simTime else s.oldTime }

/-- The state in which the tick calls `move`. -/
def beforeMove (s : State N α G) : State N α G := s.mfm.updateA

/-- The state in which the tick calls `updateError`. -/
def beforeError (simTime : Nat) (s : State N α G) : State N α G :=
  { (s.beforeMove.move simTime).1 with state := (s.beforeMove.move simTime).2 }

/-- The first half of `update`, guarded by `STATE_UNBALANCED`. -/
def learn (simTime : Nat) (s : State N α G) : State N α G :=
  let s := s.beforeError simTime
  (s.updateError s.tracker.xPos s.tracker.yPos simTime).updateV

/-- `save_` only prints. -/
def update (simTime : Nat) (s : State N α G) : State N α G :=
  let s := if s.state = .unbalanced then s.learn simTime else s
  if s.state = .balanced ∨ simTime % saveStep = 0 then
    { s with state := .saved, timerOn := false }
  else s

def cameraEvent (key : Uint) (now : Nat) (s : State N α G) : State N α G :=
  if polOfKey key = 1 ∧ now ≠ 0 then s.computePos (xOfKey key) (yOfKey key) now else s

/-- `c_main`; the source passes 0 as the seed. -/
def cMain (N : Nat) (α G : Type) [Field α] [LinearOrder α] [FloorRing α] [Libm α] [Prng G]
    (noiseSeed : Uint) : State N α G :=
  let s := { globals N α G with sent := startDevices }
  { s.initNetwork noiseSeed with timerOn := true }

end State

inductive Event where
  | camera (key : Uint) (now : Nat)
  | tick (simTime : Nat)
deriving DecidableEq, Repr

section Runs

variable {N : Nat} {α G : Type} [Field α] [LinearOrder α] [FloorRing α] [Libm α] [Prng G]

/-- After `spin1_callback_off` no tick is delivered. -/
def step (s : State N α G) : Event → State N α G
  | .camera key now => s.cameraEvent key now
  | .tick simTime => if s.timerOn then s.update simTime else s

/-- The state after the events `evs`. -/
def run (N : Nat) (α G : Type) [Field α] [LinearOrder α] [FloorRing α] [Libm α] [Prng G]
    (noiseSeed : Uint) (evs : List Event) : State N α G :=
  exec step (State.cMain N α G noiseSeed) evs

end Runs

end BallController.Sequential
