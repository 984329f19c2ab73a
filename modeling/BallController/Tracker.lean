import BallController.Lib.Window
import BallController.Prng
import BallController.Spin1Math

/-! The ball tracker of `BallController.c`, the same in both versions: a mean
over the last 16 accepted camera samples, kept as a running total per axis.
`compute_pos` drops a sample whose distance to the tracked position is 100 or
more, once the window has been filled. -/

namespace BallController
open Lib Spin1Math

/-- The globals of the "ball tracking" and "ball parameters" groups. -/
@[ext]
structure Tracker where
  xBuffer : CArray 16 Int
  yBuffer : CArray 16 Int
  totalSumX : Int
  totalSumY : Int
  currIndex : Nat
  xPos : Int
  yPos : Int
  posComputed : Int

namespace Tracker

/-- Static initialisation. -/
def init : Tracker where
  xBuffer := 0
  yBuffer := 0
  totalSumX := 0
  totalSumY := 0
  currIndex := 0
  xPos := 0
  yPos := 0
  posComputed := 0

/-- The outlier filter: the condition of `compute_pos`. -/
def Accepts (α : Type) [Field α] [LinearOrder α] [Libm α] (t : Tracker) (xCur yCur : Int) : Prop :=
  t.posComputed = 0 ∨ (norm (t.xPos - xCur) (t.yPos - yCur) : α) < 100

instance (α : Type) [Field α] [LinearOrder α] [Libm α] (t : Tracker) (xCur yCur : Int) :
    Decidable (t.Accepts α xCur yCur) := inferInstanceAs (Decidable (_ ∨ _))

/-- The body of `compute_pos`; `>>> 4` is the division by 16. -/
def push (t : Tracker) (xCur yCur : Int) : Tracker :=
  let totalSumX := t.totalSumX - t.xBuffer.read t.currIndex + xCur
  let totalSumY := t.totalSumY - t.yBuffer.read t.currIndex + yCur
  { xBuffer := t.xBuffer.write t.currIndex xCur
    yBuffer := t.yBuffer.write t.currIndex yCur
    totalSumX := totalSumX
    totalSumY := totalSumY
    xPos := totalSumX >>> (4 : Nat)
    yPos := totalSumY >>> (4 : Nat)
    posComputed := if t.posComputed = 0 ∧ t.currIndex = 15 then 1 else t.posComputed
    currIndex := (t.currIndex + 1) % 16 }

def computePos (α : Type) [Field α] [LinearOrder α] [Libm α] (xCur yCur : Int) (t : Tracker) :
    Tracker := if t.Accepts α xCur yCur then t.push xCur yCur else t

end Tracker

/-! ## Camera events -/

/-- Raw position extraction of both camera handlers: 7 bits for each axis. -/
def yOfKey (key : Uint) : Int := (key &&& 0x7F#32).toNat
def xOfKey (key : Uint) : Int := ((key >>> 8) &&& 0x7F#32).toNat

/-- The polarity bit. -/
def polOfKey (key : Uint) : Nat := ((key >>> 7) &&& 0x01#32).toNat

private theorem mask7 (v : Uint) :
    (0 : Int) ≤ (v &&& 0x7F#32).toNat ∧ ((v &&& 0x7F#32).toNat : Int) ≤ 127 := by
  have h : (v &&& 0x7F#32).toNat ≤ 127 := by
    rw [BitVec.toNat_and]
    exact Nat.and_le_right
  omega

theorem xOfKey_mem (key : Uint) : 0 ≤ xOfKey key ∧ xOfKey key ≤ 127 := mask7 _

theorem yOfKey_mem (key : Uint) : 0 ≤ yOfKey key ∧ yOfKey key ≤ 127 := mask7 _

/-! ## The tracker invariant -/

namespace Tracker

/-- One axis: the total is the sum of the window, the samples are camera
coordinates and the position is the mean rounded down. -/
structure AxisOk (buffer : CArray 16 Int) (total pos : Int) : Prop where
  total_eq : total = ∑ i, buffer i
  cell_mem : ∀ i, 0 ≤ buffer i ∧ buffer i ≤ 127
  pos_eq : pos = total >>> (4 : Nat)

structure Ok (t : Tracker) : Prop where
  x : AxisOk t.xBuffer t.totalSumX t.xPos
  y : AxisOk t.yBuffer t.totalSumY t.yPos
  index_lt : t.currIndex < 16

theorem init_ok : init.Ok := by
  have h : AxisOk (0 : CArray 16 Int) 0 0 := ⟨by simp, fun i => by simp, by decide⟩
  exact ⟨h, h, by decide⟩

theorem AxisOk.push {buffer : CArray 16 Int} {total pos : Int} (h : AxisOk buffer total pos) {i : Nat}
    (hi : i < 16) {v : Int} (hv : 0 ≤ v ∧ v ≤ 127) :
    AxisOk (buffer.write i v) (total - buffer.read i + v) ((total - buffer.read i + v) >>> (4 : Nat)) where
  total_eq := by rw [sum_write buffer hi, h.total_eq]
  cell_mem j := by
    rw [CArray.write_apply]
    split
    · exact hv
    · exact h.cell_mem j
  pos_eq := rfl

theorem Ok.push {t : Tracker} (h : t.Ok) {xCur yCur : Int} (hx : 0 ≤ xCur ∧ xCur ≤ 127)
    (hy : 0 ≤ yCur ∧ yCur ≤ 127) : (t.push xCur yCur).Ok :=
  ⟨h.x.push h.index_lt hx, h.y.push h.index_lt hy, Nat.mod_lt _ (by decide)⟩

theorem Ok.computePos {α : Type} [Field α] [LinearOrder α] [Libm α] {t : Tracker} (h : t.Ok)
    (key : Uint) : (t.computePos α (xOfKey key) (yOfKey key)).Ok := by
  unfold Tracker.computePos
  split
  · exact h.push (xOfKey_mem key) (yOfKey_mem key)
  · exact h

/-- The tracked position is a camera coordinate. -/
theorem AxisOk.pos_mem {buffer : CArray 16 Int} {total pos : Int} (h : AxisOk buffer total pos) :
    0 ≤ pos ∧ pos ≤ 127 := by
  have h0 : 0 ≤ ∑ i, buffer i := Finset.sum_nonneg fun i _ => (h.cell_mem i).1
  have h1 : ∑ i, buffer i ≤ 16 * 127 := by
    have := Finset.sum_le_card_nsmul Finset.univ buffer 127 fun i _ => (h.cell_mem i).2
    simpa using this
  rw [h.pos_eq, Int.shiftRight_eq_div_pow, h.total_eq]
  omega

end Tracker

end BallController
