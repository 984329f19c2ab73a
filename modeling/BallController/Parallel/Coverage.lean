import BallController.Parallel.Slave
import BallController.Placement

/-! The slaves have no dead zone: for every position there is one that fires
whenever it has been told that position, whatever the network has lost, repeated
or reordered before. -/

namespace BallController.Parallel
open Lib Spin1Math

variable {G : Type} [Prng G]

/-- A slave that has answered fires at half the activation of the position that
it was told last. -/
structure FiresAt (center : Vector2d ℝ) (c : Core ℝ G) : Prop where
  center_eq : c.center = center
  nonneg : 0 ≤ c.fX ∧ 0 ≤ c.fY
  count : 1 ≤ c.simCount
  rate : 1 < c.simCount → activation |c.ball.pos.x - center.x| / 2 ≤ c.fX ∧
    activation |c.ball.pos.y - center.y| / 2 ≤ c.fY

/-- `mfm_` moves the rates half way. -/
theorem process_rates (c : Core ℝ G) (p : Packet) :
    (c.process p).fX = c.fX + (-c.fX + activation |(c.process p).ball.pos.x - c.center.x|) * tauM ∧
      (c.process p).fY = c.fY + (-c.fY + activation |(c.process p).ball.pos.y - c.center.y|) * tauM := by
  simp only [process_pos]
  simp only [Core.process, Core.sendUpd, Core.updateV, Core.updateA, Core.updateABody, Core.drawNoise,
    Core.mfm, Core.recErr, Core.send, vSub, BallParams.normalizeBallParams_pos, fAbs_eq_abs,
    activation, and_self]

theorem FiresAt.process {center : Vector2d ℝ} {c : Core ℝ G} (h : FiresAt center c) (p : Packet) :
    FiresAt center (c.process p) := by
  obtain ⟨hx, hy⟩ := process_rates c p
  obtain ⟨h0x, h0y⟩ := h.nonneg
  have hcount := h.count
  rw [h.center_eq] at hx hy
  rw [tauM_eq] at hx hy
  have hax := activation_nonneg |(c.process p).ball.pos.x - center.x|
  have hay := activation_nonneg |(c.process p).ball.pos.y - center.y|
  refine ⟨(process_center c p).trans h.center_eq, ⟨?_, ?_⟩, ?_, fun _ => ⟨?_, ?_⟩⟩
  · linarith
  · linarith
  · rw [process_simCount]
    omega
  · linarith
  · linarith

theorem FiresAt.eventNode {center : Vector2d ℝ} {c : Core ℝ G} (h : FiresAt center c) (p : Packet) :
    FiresAt center (c.eventNode p.key p.payload) := by
  rw [eventNode_eq]
  split
  · exact h.process p
  · exact h

/-- In every state of every run of the system. -/
theorem firesAt_run (s : SlaveId) (evs : List SystemEvent) :
    FiresAt (centerOf s.1.1 s.1.2) ((exec System.step (System.start ℝ G) evs).slave s) := by
  have hslave := slaves_not_master s.1 s.2
  have hstart := Core.cMain_slaveStart (G := G) hslave
  rw [System.slave_eq]
  refine exec_induction (P := FiresAt (centerOf s.1.1 s.1.2)) (fun c p h => h.eventNode p) ?_ _
  refine ⟨(Core.cMain_slave hslave).2.2.1, ?_, hstart.simCount.ge, fun h => ?_⟩
  · rw [hstart.rates.1, hstart.rates.2]
    exact ⟨le_rfl, le_rfl⟩
  · rw [hstart.simCount] at h
    exact absurd h (lt_irrefl 1)

/-- For every coordinate there are two slaves that, in every state of every run
in which an ERROR message has told them this coordinate last, fire at two fifths
of their maximum: one along the x axis and one along the y axis. -/
theorem some_slave_fires {q : ℝ} (hq : |q| ≤ 1) :
    (∃ s : SlaveId, ∀ evs, let c := (exec System.step (System.start ℝ G) evs).slave s
      1 < c.simCount → c.ball.pos.x = q → 2 / 5 ≤ c.fX) ∧
    ∃ s : SlaveId, ∀ evs, let c := (exec System.step (System.start ℝ G) evs).slave s
      1 < c.simCount → c.ball.pos.y = q → 2 / 5 ≤ c.fY := by
  obtain ⟨p, hp, hx⟩ := exists_slave_near_x hq
  obtain ⟨p', hp', hy⟩ := exists_slave_near_y hq
  have hactX := le_activation_of_near hx
  have hactY := le_activation_of_near hy
  refine ⟨⟨⟨p, hp⟩, fun evs hcount hpos => ?_⟩, ⟨p', hp'⟩, fun evs hcount hpos => ?_⟩
  · have hrate := ((firesAt_run (G := G) ⟨p, hp⟩ evs).rate hcount).1
    rw [hpos] at hrate
    linarith
  · have hrate := ((firesAt_run (G := G) ⟨p', hp'⟩ evs).rate hcount).2
    rw [hpos] at hrate
    linarith

/-- For the middle of the plate. -/
theorem some_slave_fires_middle :
    (∃ s : SlaveId, ∀ evs, let c := (exec System.step (System.start ℝ MuslRand) evs).slave s
      1 < c.simCount → c.ball.pos.x = 0 → 2 / 5 ≤ c.fX) ∧
    ∃ s : SlaveId, ∀ evs, let c := (exec System.step (System.start ℝ MuslRand) evs).slave s
      1 < c.simCount → c.ball.pos.y = 0 → 2 / 5 ≤ c.fY :=
  some_slave_fires (by rw [abs_zero]; exact zero_le_one)

end BallController.Parallel
