import BallController.Parallel.Lifetime
import BallController.Sequential.Lifetime
import BallController.Sequential.Ranges

/-! The two versions side by side. Fed with the same camera packets and ticks,
whatever UPD messages reach the master in between, they track the same position
and derive the same parameters of the ball, hence the same rewards, for as long
as neither has stopped. -/

namespace BallController
open Lib Spin1Math

variable {N : Nat} {G G' : Type} [Prng G] [Prng G']

/-- What the sequential program gets when the master gets an event: the camera
packets and the ticks, but no UPD message. -/
def sequentialEvent : Parallel.MasterEvent → Option Sequential.Event
  | .packet key _ now =>
    if key &&& 0xC0000000#32 = Parallel.updMsg then none else some (.camera key now)
  | .tick simTime => some (.tick simTime)

/-- Both versions are running and have measured the same. -/
structure SameBall (s : Sequential.State N ℝ G) (c : Parallel.Core ℝ G') : Prop where
  sequential : Sequential.Running s
  parallel : Parallel.Running c
  ok : s.tracker.Ok
  tracker : c.tracker = s.tracker
  ball : c.ball = s.ball

/-! ## The tracker -/

theorem sampleOf_eq (e : Parallel.MasterEvent) :
    Parallel.sampleOf e = (sequentialEvent e).bind Sequential.sampleOf := by
  cases e with
  | packet key payload now =>
    simp only [Parallel.sampleOf, sequentialEvent]
    split <;> rfl
  | tick t => rfl

/-- The step of the sequential program. -/
def follow {α : Type} [Field α] [LinearOrder α] [FloorRing α] [Libm α] (s : Sequential.State N α G)
    (e : Parallel.MasterEvent) : Sequential.State N α G :=
  (sequentialEvent e).elim s (Sequential.step s)

theorem tracker_follow {s : Sequential.State N ℝ G} {c : Parallel.Core ℝ G'}
    (h : c.tracker = s.tracker) (e : Parallel.MasterEvent) :
    (Parallel.masterStep c e).tracker = (follow s e).tracker := by
  have hc := (Parallel.tracking (G := G')).step_eq c e
  rw [hc, sampleOf_eq, h, follow]
  cases he : sequentialEvent e with
  | none => rfl
  | some d => exact ((Sequential.tracking (N := N) (G := G)).step_eq s d).symm

/-! ## The ball -/

namespace Parallel

theorem ball_packet (c : Core ℝ G) (key payload : Uint) (now : Nat) :
    (masterStep c (.packet key payload now)).ball = c.ball := by
  simp only [masterStep, Core.eventMaster]
  split_ifs <;> rfl

theorem Running.packet {c : Core ℝ G} (h : Running c) (key payload : Uint) (now : Nat) :
    Running (masterStep c (.packet key payload now)) := by
  obtain ⟨ht, hs⟩ := Prod.ext_iff.mp (status_packet c key payload now)
  exact ⟨ht.trans h.timerOn, hs.trans h.state⟩

/-- The master hands its position over as unsigned, which its range makes harmless. -/
theorem Running.tick_ball {c : Core ℝ G} (h : Running c) (hc : c.tracker.Ok) (t : Nat) :
    (masterStep c (.tick t)).ball =
      c.ball.normalizeBallParams c.tracker.xPos c.tracker.yPos t := by
  obtain ⟨hx, hy⟩ := Prod.mk.inj (toInt_tracked hc)
  have hball : ((c.beforeSend t).sendErr (toUint c.tracker.xPos) (toUint c.tracker.yPos)).ball =
      c.ball.normalizeBallParams (toUint c.tracker.xPos).toInt (toUint c.tracker.yPos).toInt t := rfl
  rw [masterStep, if_pos h.timerOn, Core.update_frame (fun c => c.ball) (fun _ => rfl),
    if_pos h.state, hball, hx, hy]

omit [Prng G] in
theorem initBuffers_loop (c : Core ℝ G) : forLoop 4 Core.initBuffers c =
    { c with ball := { c.ball with posBuffer := fun _ => 1.0, speedBuffer := fun _ => 1.0 } } :=
  BallParams.fillBuffers_loop (fun b => { c with ball := b }) (fun _ _ => rfl) c.ball

/-- The master starts with the buffers filled, as the sequential program does. -/
theorem masterStart_ball : (masterStart ℝ G).ball = { (BallParams.globals : BallParams ℝ) with
    pos := ⟨-1.0, 0.0⟩, oldPos := ⟨-1.0, 0.0⟩, speed := ⟨0.0, 0.0⟩
    posBuffer := fun _ => 1.0, speedBuffer := fun _ => 1.0 } := by
  have h : Core.IsMaster 0 1 := by decide
  simp only [masterStart, Core.cMain, Core.initNetwork, Core.initParams, Core.initMFM, if_pos h,
    initBuffers_loop]
  rfl

end Parallel

theorem Sequential.Running.camera {s : State N ℝ G} (h : Running s) (key : Uint) (now : Nat) :
    Running (step s (.camera key now)) := by
  obtain ⟨ht, hrest⟩ := Prod.ext_iff.mp (camera_phase s key now)
  obtain ⟨hs, -⟩ := Prod.ext_iff.mp hrest
  exact ⟨ht.trans h.timerOn, hs.trans h.state⟩

/-! ## The two programs -/

namespace SameBall

theorem packet {s : Sequential.State N ℝ G} {c : Parallel.Core ℝ G'} (h : SameBall s c)
    (key payload : Uint) (now : Nat) :
    SameBall (follow s (.packet key payload now)) (Parallel.masterStep c (.packet key payload now)) := by
  have htracker := tracker_follow h.tracker (.packet key payload now)
  have hok : (Parallel.masterStep c (.packet key payload now)).tracker.Ok :=
    Parallel.tracker_step c _ (h.tracker ▸ h.ok)
  have hball := (Parallel.ball_packet c key payload now).trans h.ball
  have hrun := h.parallel.packet key payload now
  rw [htracker] at hok
  refine ⟨?_, hrun, hok, htracker, hball.trans ?_⟩
  · simp only [follow, sequentialEvent]
    split
    · exact h.sequential
    · exact h.sequential.camera key now
  · simp only [follow, sequentialEvent]
    split
    · rfl
    · exact (Sequential.camera_frame s key now).2.symm

/-- A tick that stops neither program measures the same in both. -/
theorem tick {s : Sequential.State N ℝ G} {c : Parallel.Core ℝ G'} (h : SameBall s c) (t : Nat) :
    ((follow s (.tick t)).timerOn = false ∨ (Parallel.masterStep c (.tick t)).timerOn = false) ∨
      SameBall (follow s (.tick t)) (Parallel.masterStep c (.tick t)) := by
  have hfollow : follow s (.tick t) = Sequential.step s (.tick t) := rfl
  by_cases hs : s.beforeMove.Stops t ∨ t % Sequential.saveStep = 0
  · left; left
    rw [hfollow, h.sequential.stop hs]
  by_cases hc : t % Parallel.saveStep = 0
  · left; right
    exact (h.parallel.save hc).timerOn
  right
  obtain ⟨hstops, ht⟩ := not_or.mp hs
  obtain ⟨hstep, hrun⟩ := h.sequential.go hstops ht
  have htracker := tracker_follow h.tracker (.tick t)
  have hok : (Parallel.masterStep c (.tick t)).tracker.Ok :=
    Parallel.tracker_step c _ (h.tracker ▸ h.ok)
  rw [htracker] at hok
  refine ⟨?_, h.parallel.tick hc, hok, htracker, ?_⟩
  · rw [hfollow, hstep]
    exact hrun
  · rw [h.parallel.tick_ball (h.tracker ▸ h.ok), h.ball, h.tracker, hfollow, Sequential.tick_ball,
      if_pos ⟨h.sequential.timerOn, h.sequential.state⟩]

theorem start (noiseSeed : Uint) :
    SameBall (Sequential.State.cMain N ℝ G noiseSeed) (Parallel.masterStart ℝ G') where
  sequential := ⟨Sequential.State.cMain_timerOn noiseSeed, Sequential.State.cMain_state noiseSeed⟩
  parallel := ⟨Parallel.masterStart_unbalanced.1, Parallel.masterStart_unbalanced.2⟩
  ok := by
    rw [Sequential.State.cMain_tracker]
    exact Tracker.init_ok
  tracker := by rw [Parallel.masterStart_tracker, Sequential.State.cMain_tracker]
  ball := Parallel.masterStart_ball.trans (Sequential.State.initNetwork_ball noiseSeed
    { Sequential.State.globals N ℝ G with sent := startDevices }).symm

end SameBall

/-! ## Runs -/

/-- What has stopped stays stopped. -/
theorem follow_stopped {s : Sequential.State N ℝ G} (h : s.timerOn = false)
    (e : Parallel.MasterEvent) : (follow s e).timerOn = false := by
  rw [follow]
  cases sequentialEvent e with
  | none => exact h
  | some d => exact (Sequential.stopped_frame h [d]).1

theorem master_stopped {c : Parallel.Core ℝ G} (h : c.timerOn = false) (e : Parallel.MasterEvent) :
    (Parallel.masterStep c e).timerOn = false := by
  cases e with
  | packet key payload now =>
    exact (Prod.ext_iff.mp (Parallel.status_packet c key payload now)).1.trans h
  | tick t =>
    rw [Parallel.masterStep, h]
    exact h

/-- For every run of the master, with any UPD messages in it, and the sequential
program fed with the same camera packets and ticks: as long as both are running,
they track the same position and have the same parameters of the ball, that is
its position, its speed, their means and what the rewards are made of. -/
theorem versions_measure_alike (noiseSeed : Uint) (evs : List Parallel.MasterEvent)
    (hs : (Sequential.run N ℝ G noiseSeed (evs.filterMap sequentialEvent)).timerOn = true)
    (hc : (Parallel.masterRun ℝ G' evs).timerOn = true) :
    let s := Sequential.run N ℝ G noiseSeed (evs.filterMap sequentialEvent)
    let c := Parallel.masterRun ℝ G' evs
    c.tracker = s.tracker ∧ c.ball = s.ball := by
  intro s c
  have hview : ∀ (s : Sequential.State N ℝ G) (e : Parallel.MasterEvent),
      id (follow s e) = (sequentialEvent e).elim (id s) (Sequential.step (id s)) := fun _ _ => rfl
  have hfollow : s = exec follow (Sequential.State.cMain N ℝ G noiseSeed) evs :=
    (exec_filterMap hview (Sequential.State.cMain N ℝ G noiseSeed) evs).symm
  have hsame : (s.timerOn = false ∨ c.timerOn = false) ∨ SameBall s c := by
    rw [hfollow]
    refine exec_simulation (R := fun (s : Sequential.State N ℝ G) (c : Parallel.Core ℝ G') =>
      (s.timerOn = false ∨ c.timerOn = false) ∨ SameBall s c) ?_ (Or.inr (SameBall.start noiseSeed))
      (along_events (P := fun _ => True).mpr fun _ _ => trivial)
    rintro s c e ((hoff | hoff) | hr) -
    · exact Or.inl (Or.inl (follow_stopped hoff e))
    · exact Or.inl (Or.inr (master_stopped hoff e))
    · cases e with
      | packet key payload now => exact Or.inr (hr.packet key payload now)
      | tick t => exact hr.tick t
  rcases hsame with (hoff | hoff) | hr
  · exact absurd (hs.symm.trans hoff) (by decide)
  · exact absurd (hc.symm.trans hoff) (by decide)
  · exact ⟨hr.tracker, hr.ball⟩

/-- A camera packet, an UPD message and a tick. -/
theorem versions_measure_alike_first :
    (Parallel.masterRun ℝ MuslRand [.packet 0x00004001#32 0 5, .packet 0x40000000#32 0 6, .tick 1]).ball =
      (Sequential.run Sequential.nMFM ℝ MuslRand 0 [.camera 0x00004001#32 5, .tick 1]).ball := by
  have hevs : [Parallel.MasterEvent.packet 0x00004001#32 0 5, .packet 0x40000000#32 0 6, .tick 1].filterMap
      sequentialEvent = [.camera 0x00004001#32 5, .tick 1] := by decide
  have hs : Sequential.Lived 1
      (Sequential.run Sequential.nMFM ℝ MuslRand 0 [.camera 0x00004001#32 5, .tick 1]) := by
    rw [Sequential.run, exec_cons, exec_cons, exec_nil]
    exact ((Sequential.lived_start 0).camera _ _).tick
  have hc : Parallel.Lived 1 (Parallel.masterRun ℝ MuslRand
      [.packet 0x00004001#32 0 5, .packet 0x40000000#32 0 6, .tick 1]) := by
    rw [Parallel.masterRun, exec_cons, exec_cons, exec_cons, exec_nil]
    exact ((Parallel.lived_start.packet _ _ _).packet _ _ _).tick
      (Parallel.tracker_step _ _ (Parallel.tracker_step _ _ Parallel.masterStart_ok))
  have hrun := hc.running (by decide)
  rcases hs.phase with ⟨-, hr⟩ | ⟨hlt, -⟩
  · rw [← hevs] at hr ⊢
    exact (versions_measure_alike 0 _ hr.timerOn hrun.timerOn).2
  · exact absurd hlt (by decide)

end BallController
