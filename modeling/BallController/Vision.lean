import BallController.Parallel.Lifetime
import BallController.Sequential.Save

/-! The camera acts through the tracked position alone. What a controller does
depends on the positions that its ticks find and on nothing else that the camera
has done: not on the samples behind a position, on those that were rejected, on
the bits of a key that nobody reads or on the times of the samples. -/

namespace BallController
open Lib Spin1Math

variable {N : Nat} {G : Type} [Prng G]

/-- The first sample weighs a 16th. -/
theorem Tracking.pos_first {σ ε : Type} {step : σ → ε → σ} {tracker : σ → Tracker}
    {sampleOf : ε → Option (Int × Int)} (m : Tracking step tracker sampleOf) {s : σ}
    (hs : tracker s = Tracker.init) {e : ε} {p : Int × Int} (h : sampleOf e = some p) :
    (tracker (step s e)).xPos = p.1 / 16 ∧ (tracker (step s e)).yPos = p.2 / 16 := by
  have hpos := (m.tracks hs [e]).pos
  have hh : history sampleOf [e] = [p] := by
    rw [history, List.filterMap_cons_some h]
    exact History.exec_offer_warm (by simp)
  rw [hh, History.pos, windowMean_eq, windowMean_eq] at hpos
  simpa [History.xs, History.ys] using hpos

/-! ## Sequential version -/

namespace Sequential

section Defs

variable {α : Type} [Field α] [LinearOrder α] [FloorRing α] [Libm α]

/-- The program with another tracker, at the same position or not. -/
def State.withEye (t : Tracker) (oldTime : Int) (s : State N α G) : State N α G :=
  { s with tracker := t, oldTime := oldTime }

/-- The program without its tracker. -/
def State.blind (s : State N α G) : State N α G := s.withEye Tracker.init (-1)

/-- A tracker of which only the position is known. -/
def eyeAt (x y : Int) : Tracker := { Tracker.init with xPos := x, yPos := y }

/-- The time and the position that a tick finds. -/
def seen (s : State N α G) : Event → List (Nat × Int × Int)
  | .camera _ _ => []
  | .tick t => if s.timerOn then [(t, s.tracker.xPos, s.tracker.yPos)] else []

/-- A tick of the program without its tracker. -/
def State.blindTick (s : State N α G) (v : Nat × Int × Int) : State N α G :=
  ((s.withEye (eyeAt v.2.1 v.2.2) (-1)).update v.1).blind

end Defs

namespace State

theorem beforeMove_withEye (t : Tracker) (o : Int) (s : State N ℝ G) :
    (s.withEye t o).beforeMove = s.beforeMove.withEye t o := by
  simp only [beforeMove, updateA_eq, mfm_eq]
  rfl

omit [Prng G] in
theorem move_withEye (t : Tracker) (o : Int) (k : Nat) (s : State N ℝ G) :
    (s.withEye t o).move k = ((s.move k).1.withEye t o, (s.move k).2) := by
  have hout : (s.withEye t o).actorOutputs = s.actorOutputs := rfl
  have hball : (s.withEye t o).ball = s.ball := rfl
  simp only [move, hout, hball]
  split_ifs <;> rfl

theorem beforeError_withEye (t : Tracker) (o : Int) (k : Nat) (s : State N ℝ G) :
    (s.withEye t o).beforeError k = (s.beforeError k).withEye t o := by
  simp only [beforeError, beforeMove_withEye, move_withEye]
  rfl

/-- A tick reads the position of the tracker and keeps the tracker. -/
theorem learn_withEye {t : Tracker} {s : State N ℝ G} (hx : t.xPos = s.tracker.xPos)
    (hy : t.yPos = s.tracker.yPos) (o : Int) (k : Nat) :
    (s.withEye t o).learn k = (s.learn k).withEye t o := by
  rw [learn_eq, learn_eq, beforeError_withEye, beforeMove_withEye]
  simp only [withEye, hx, hy]
  rfl

theorem update_withEye {t : Tracker} {s : State N ℝ G} (hx : t.xPos = s.tracker.xPos)
    (hy : t.yPos = s.tracker.yPos) (o : Int) (k : Nat) :
    (s.withEye t o).update k = (s.update k).withEye t o := by
  have hstate : (s.withEye t o).state = s.state := rfl
  have hu : (if (s.withEye t o).state = .unbalanced then (s.withEye t o).learn k else s.withEye t o) =
      (if s.state = .unbalanced then s.learn k else s).withEye t o := by
    rw [hstate, learn_withEye hx hy]
    split <;> rfl
  simp only [update]
  rw [hu]
  generalize (if s.state = .unbalanced then s.learn k else s) = u
  have hustate : (u.withEye t o).state = u.state := rfl
  rw [hustate]
  split <;> rfl

/-- What an event does to the program without its tracker. -/
theorem blind_step (s : State N ℝ G) (e : Event) :
    (step s e).blind = exec blindTick s.blind (seen s e) := by
  cases e with
  | camera key now =>
    rw [step, cameraEvent]
    split <;> rfl
  | tick k =>
    by_cases ht : s.timerOn = true
    · have hupdate := update_withEye (s := s) (t := eyeAt s.tracker.xPos s.tracker.yPos) rfl rfl (-1) k
      rw [step, seen, if_pos ht, if_pos ht, exec_cons, exec_nil]
      exact (congrArg blind hupdate).symm
    · rw [step, seen, if_neg ht, if_neg ht, exec_nil]

end State

/-- What the ticks of a run see. -/
noncomputable def sight (N : Nat) (G : Type) [Prng G] (noiseSeed : Uint) (evs : List Event) :
    List (Nat × Int × Int) :=
  emitted step seen (State.cMain N ℝ G noiseSeed) evs

/-- Two runs whose ticks find the same positions at the same times send the same
packets, print the same and agree in everything but the tracker. -/
theorem position_decides (noiseSeed : Uint) {evs evs' : List Event}
    (h : sight N G noiseSeed evs = sight N G noiseSeed evs') :
    (run N ℝ G noiseSeed evs).sent = (run N ℝ G noiseSeed evs').sent ∧
      output N ℝ G noiseSeed evs = output N ℝ G noiseSeed evs' ∧
      (run N ℝ G noiseSeed evs).blind = (run N ℝ G noiseSeed evs').blind := by
  have hblind : (run N ℝ G noiseSeed evs).blind = (run N ℝ G noiseSeed evs').blind :=
    exec_emitted_congr State.blind_step rfl h
  have hsent : (run N ℝ G noiseSeed evs).blind.sent = (run N ℝ G noiseSeed evs').blind.sent := by
    rw [hblind]
  have htimer : (run N ℝ G noiseSeed evs).blind.timerOn = (run N ℝ G noiseSeed evs').blind.timerOn := by
    rw [hblind]
  have hsave : (run N ℝ G noiseSeed evs).blind.save = (run N ℝ G noiseSeed evs').blind.save := by
    rw [hblind]
  refine ⟨hsent, ?_, hblind⟩
  rw [output_eq, output_eq]
  exact congrArg _ (if_congr (Eq.congr_left htimer) rfl hsave)

theorem sight_sample {e : Event} {p : Int × Int} (h : sampleOf e = some p) (noiseSeed : Uint)
    (t : Nat) : sight N G noiseSeed [e, .tick t] = [(t, p.1 / 16, p.2 / 16)] := by
  cases e with
  | tick t => cases h
  | camera key now =>
    have hstart := State.cMain_tracker (N := N) (G := G) noiseSeed
    obtain ⟨hx, hy⟩ := (tracking (N := N) (G := G)).pos_first hstart h
    have hon : (State.cMain N ℝ G noiseSeed).timerOn = true := State.cMain_timerOn noiseSeed
    have htimer : (step (State.cMain N ℝ G noiseSeed) (.camera key now)).timerOn = true := by
      rw [step, State.cameraEvent]
      split <;> exact hon
    simp only [sight, emitted, seen, htimer, if_true, hx, hy, List.nil_append, List.append_nil]

/-- Samples at (16, 16) and at (17, 17) lie behind one tracked position, (1, 1). -/
theorem position_decides_samples :
    (run nMFM ℝ MuslRand 0 [.camera 0x1090 5, .tick 1]).sent =
      (run nMFM ℝ MuslRand 0 [.camera 0x1191 9, .tick 1]).sent := by
  have h : sampleOf (.camera 0x1090 5) = some (16, 16) := rfl
  have h' : sampleOf (.camera 0x1191 9) = some (17, 17) := rfl
  have hsight : sight nMFM MuslRand 0 [.camera 0x1090 5, .tick 1] =
      sight nMFM MuslRand 0 [.camera 0x1191 9, .tick 1] := by
    rw [sight_sample h, sight_sample h']
    rfl
  exact (position_decides 0 hsight).1

end Sequential

/-! ## Parallel version -/

namespace Parallel

section Defs

variable {α : Type} [Field α] [LinearOrder α] [FloorRing α] [Libm α]

def Core.withEye (t : Tracker) (c : Core α G) : Core α G := { c with tracker := t }

/-- The program without its tracker. -/
def Core.blind (c : Core α G) : Core α G := c.withEye Tracker.init

/-- An UPD message, or the time and the position that a tick finds. -/
def seen (c : Core α G) : MasterEvent → List (Packet ⊕ Nat × Int × Int)
  | .packet key payload _ => if key &&& 0xC0000000#32 = updMsg then [.inl ⟨key, payload⟩] else []
  | .tick t => if c.timerOn then [.inr (t, c.tracker.xPos, c.tracker.yPos)] else []

/-- What the program without its tracker makes of it. -/
def Core.blindStep (c : Core α G) : Packet ⊕ Nat × Int × Int → Core α G
  | .inl p => c.recUpd p.key p.payload
  | .inr v => ((c.withEye (Sequential.eyeAt v.2.1 v.2.2)).update v.1).blind

end Defs

namespace Core

theorem move_withEye (t : Tracker) (c : Core ℝ G) :
    (c.withEye t).move = (c.move.1.withEye t, c.move.2) := rfl

theorem beforeSend_withEye {t : Tracker} {c : Core ℝ G} (hx : t.xPos = c.tracker.xPos)
    (hy : t.yPos = c.tracker.yPos) (k : Nat) :
    (c.withEye t).beforeSend k = (c.beforeSend k).withEye t := by
  have hmove : (c.withEye t).beforeMove k = (c.beforeMove k).withEye t := by
    have hx' : (c.withEye t).tracker.xPos = c.tracker.xPos := hx
    have hy' : (c.withEye t).tracker.yPos = c.tracker.yPos := hy
    rw [beforeMove, beforeMove, hx', hy']
    rfl
  simp only [beforeSend, hmove, move_withEye]
  rfl

theorem update_withEye {t : Tracker} {c : Core ℝ G} (hx : t.xPos = c.tracker.xPos)
    (hy : t.yPos = c.tracker.yPos) (k : Nat) :
    (c.withEye t).update k = (c.update k).withEye t := by
  have hstate : (c.withEye t).state = c.state := rfl
  have hx' : (c.withEye t).tracker.xPos = c.tracker.xPos := hx
  have hy' : (c.withEye t).tracker.yPos = c.tracker.yPos := hy
  have hu : (if (c.withEye t).state = .unbalanced then ((c.withEye t).beforeSend k).sendErr
        (toUint (c.withEye t).tracker.xPos) (toUint (c.withEye t).tracker.yPos) else c.withEye t) =
      (if c.state = .unbalanced then (c.beforeSend k).sendErr (toUint c.tracker.xPos)
        (toUint c.tracker.yPos) else c).withEye t := by
    rw [hstate, hx', hy', beforeSend_withEye hx hy]
    split <;> rfl
  simp only [update]
  rw [hu]
  generalize (if c.state = .unbalanced then (c.beforeSend k).sendErr (toUint c.tracker.xPos)
    (toUint c.tracker.yPos) else c) = u
  have hustate : (u.withEye t).state = u.state := rfl
  rw [hustate]
  split <;> rfl

/-- What an event does to the program without its tracker. -/
theorem blind_step (c : Core ℝ G) (e : MasterEvent) :
    (masterStep c e).blind = exec blindStep c.blind (seen c e) := by
  cases e with
  | packet key payload now =>
    simp only [masterStep, eventMaster, seen]
    split
    · rfl
    · split <;> rfl
  | tick k =>
    by_cases ht : c.timerOn = true
    · have hupdate := update_withEye (c := c) (t := Sequential.eyeAt c.tracker.xPos c.tracker.yPos)
        rfl rfl k
      rw [masterStep, seen, if_pos ht, if_pos ht, exec_cons, exec_nil]
      exact (congrArg blind hupdate).symm
    · rw [masterStep, seen, if_neg ht, if_neg ht, exec_nil]

end Core

/-- The UPD messages of a run and what its ticks see, in order. -/
noncomputable def sight (G : Type) [Prng G] (evs : List MasterEvent) :
    List (Packet ⊕ Nat × Int × Int) :=
  emitted masterStep seen (masterStart ℝ G) evs

/-- Two runs of the master that receive the same UPD messages, between ticks that
find the same positions at the same times, send the same commands and the same
ERROR messages, and agree in everything but the tracker. -/
theorem master_position_decides {evs evs' : List MasterEvent} (h : sight G evs = sight G evs') :
    (masterRun ℝ G evs).sent = (masterRun ℝ G evs').sent ∧
      (masterRun ℝ G evs).blind = (masterRun ℝ G evs').blind := by
  have hblind : (masterRun ℝ G evs).blind = (masterRun ℝ G evs').blind :=
    exec_emitted_congr Core.blind_step rfl h
  have hsent : (masterRun ℝ G evs).blind.sent = (masterRun ℝ G evs').blind.sent := by
    rw [hblind]
  exact ⟨hsent, hblind⟩

theorem sight_sample {e : MasterEvent} {p : Int × Int} (h : sampleOf e = some p) (t : Nat) :
    sight G [e, .tick t] = [.inr (t, p.1 / 16, p.2 / 16)] := by
  cases e with
  | tick t => cases h
  | packet key payload now =>
    obtain ⟨hx, hy⟩ := tracking.pos_first (masterStart_tracker (G := G)) h
    have htag : ¬key &&& 0xC0000000#32 = updMsg := by
      intro hk
      rw [sampleOf, if_pos hk] at h
      cases h
    have htimer : (masterStep (masterStart ℝ G) (.packet key payload now)).timerOn = true :=
      (Prod.ext_iff.mp (status_packet (masterStart ℝ G) key payload now)).1.trans
        (masterStart_unbalanced (G := G)).1
    simp only [sight, emitted, seen, if_neg htag, htimer, if_true, hx, hy, List.nil_append,
      List.append_nil]

/-- The same two samples as camera packets to the master. -/
theorem master_position_decides_samples :
    (masterRun ℝ MuslRand [.packet 0x1090 0 5, .tick 1]).sent =
      (masterRun ℝ MuslRand [.packet 0x1191 0 9, .tick 1]).sent := by
  have h : sampleOf (.packet 0x1090 0 5) = some (16, 16) := rfl
  have h' : sampleOf (.packet 0x1191 0 9) = some (17, 17) := rfl
  have hsight : sight MuslRand [.packet 0x1090 0 5, .tick 1] =
      sight MuslRand [.packet 0x1191 0 9, .tick 1] := by
    rw [sight_sample h, sight_sample h']
    rfl
  exact (master_position_decides hsight).1

end Parallel

end BallController
