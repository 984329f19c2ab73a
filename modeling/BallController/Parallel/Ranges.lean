import BallController.Parallel.Saturation
import BallController.Sequential.Ranges

/-! The ranges of the parallel program. The reports of the slaves stay in the unit
interval, so the sums of the master do, over any 59 of them and however old they
are; position, speed and reward are bounded as in the sequential program, on the
master and on every slave. -/

namespace BallController

namespace Parallel
open Lib Spin1Math

variable {G : Type} [Prng G]

omit [Prng G] in
/-- What a slave reports is in range, whatever its weights are. -/
theorem report_inRange (c : Core ℝ G) : c.report.InRange where
  vX := (abs_quantize_le (by norm_num) _).trans (abs_range_le _)
  vY := (abs_quantize_le (by norm_num) _).trans (abs_range_le _)
  theta := (abs_quantize_le (by norm_num) _).trans (abs_range_le _)
  psi := (abs_quantize_le (by norm_num) _).trans (abs_range_le _)

/-- The ranges of the master. -/
structure MasterRanged (c : Core ℝ G) : Prop where
  ball : c.ball.Ranged 0.4
  vX : |c.vX| ≤ 1
  oldVX : |c.oldVX| ≤ 10
  actions : |c.actorMeans.1| ≤ 1 ∧ |c.actorMeans.2| ≤ 1
  errors : |c.errorX| ≤ 1 ∧ |c.errorY| ≤ 1

/-- The globals of the master that a tick writes, and what they keep. -/
structure TickRanged (c : Core ℝ G) : Prop where
  ball : c.ball.SpeedOk 0.4
  oldVX : |c.oldVX| ≤ 10
  errors : |c.errorX| ≤ 1 ∧ |c.errorY| ≤ 1

theorem speedOk_next {b : BallParams ℝ} (h : b.SpeedOk 0.4) (x y : Int) (t : Nat) :
    (b.normalizeBallParams x y t).SpeedOk 0.4 := by
  have h04 : (5 : ℝ) * 0.4 = 2 := by norm_num
  exact h.next (by rw [h04]; exact h.refreshFits x y t)

theorem speedOk_cMain (chipID coreID : Uint) : (Core.cMain ℝ G chipID coreID).ball.SpeedOk 0.4 := by
  have hnorm : vNorm (⟨-1.0, 0.0⟩ : Vector2d ℝ) ≤ 1 := by
    norm_num [vNorm]
  have hbuffers : ∀ c : Core ℝ G, (forLoop 4 Core.initBuffers c).ball.pos = c.ball.pos ∧
      (forLoop 4 Core.initBuffers c).ball.oldPos = c.ball.oldPos ∧
      (forLoop 4 Core.initBuffers c).ball.spXTerm = c.ball.spXTerm ∧
      (forLoop 4 Core.initBuffers c).ball.spYTerm = c.ball.spYTerm := fun _ => ⟨rfl, rfl, rfl, rfl⟩
  have hinit : ∀ c : Core ℝ G, c.ball.SpeedOk 0.4 → c.initParams.ball.SpeedOk 0.4 := by
    intro c h
    unfold Core.initParams
    dsimp only
    split
    · obtain ⟨hp, ho, hx, hy⟩ := hbuffers _
      exact ⟨by rw [hp]; exact h.pos, by rw [ho]; exact h.oldPos, by rw [hx]; exact h.spXTerm,
        by rw [hy]; exact h.spYTerm⟩
    · exact h
  have hstart : ∀ c : Core ℝ G, c.ball.spXTerm = 0.0 → c.ball.spYTerm = 0.0 →
      (c.initNetwork chipID coreID).ball.SpeedOk 0.4 := by
    intro c hx hy
    refine hinit _ ⟨hnorm, hnorm, ?_, ?_⟩
    · show 0 ≤ c.ball.spXTerm ∧ c.ball.spXTerm ≤ 0.4
      rw [hx]
      norm_num
    · show 0 ≤ c.ball.spYTerm ∧ c.ball.spYTerm ≤ 0.4
      rw [hy]
      norm_num
  unfold Core.cMain
  dsimp only
  split_ifs <;> exact hstart _ rfl rfl

/-! ## The master -/

/-- A tick evaluates the ball and the mean of the reports. -/
theorem TickRanged.tick {c : Core ℝ G} (h : TickRanged c) (hv : |c.vX| ≤ 1) (t : Nat) :
    TickRanged (masterStep c (.tick t)) := by
  have hsend : TickRanged ((c.beforeSend t).sendErr (toUint c.tracker.xPos) (toUint c.tracker.yPos)) := by
    refine ⟨speedOk_next h.ball _ _ t, ?_, Core.beforeSend_error_mem t c⟩
    show |invDeltaTime * c.vX| ≤ 10
    rw [invDeltaTime_eq, abs_mul, abs_of_pos (by norm_num : (0 : ℝ) < 10)]
    linarith
  have hupdate : TickRanged (c.update t) = TickRanged (if c.state = .unbalanced then
      (c.beforeSend t).sendErr (toUint c.tracker.xPos) (toUint c.tracker.yPos) else c) :=
    Core.update_frame TickRanged (fun c => propext
      ⟨fun h => ⟨h.ball, h.oldVX, h.errors⟩, fun h => ⟨h.ball, h.oldVX, h.errors⟩⟩) t c
  simp only [masterStep]
  split
  · rw [hupdate]
    split
    · exact hsend
    · exact h
  · exact h

omit [Prng G] in
/-- A packet evaluates nothing. -/
theorem TickRanged.packet {c : Core ℝ G} (h : TickRanged c) (key payload : Uint) (now : Nat) :
    TickRanged (c.eventMaster key payload now) := by
  simp only [Core.eventMaster]
  split_ifs <;> exact ⟨h.ball, h.oldVX, h.errors⟩

theorem masterStart_tickRanged : TickRanged (masterStart ℝ G) where
  ball := speedOk_cMain 0 1
  oldVX := by
    show |(0.0 : ℝ)| ≤ 10
    norm_num
  errors := by
    show |(1.0 : ℝ)| ≤ 1 ∧ |(1.0 : ℝ)| ≤ 1
    norm_num

namespace System

/-- The invariant of the system. -/
structure InRange (y : System ℝ G) : Prop where
  ok : y.Ok
  last : ∀ s, (y.last s).InRange
  master : TickRanged y.master
  slave : ∀ s, (y.slave s).ball.SpeedOk 0.4

omit [Prng G] in
/-- The sums of the master are means of numbers of the unit interval. -/
theorem InRange.sums {y : System ℝ G} (h : y.InRange) :
    |y.master.vX| ≤ 1 ∧ |y.master.actorMeans.1| ≤ 1 ∧ |y.master.actorMeans.2| ≤ 1 := by
  have h0 : |(0 : ℝ)| ≤ 1 := by norm_num
  rw [Core.vX_eq, Core.actorMeans_eq]
  exact ⟨Axis.abs_mean_le (h.ok.vX.forall_cell (P := fun v => |v| ≤ 1) h0 fun s => (h.last s).vX),
    Axis.abs_mean_le (h.ok.theta.forall_cell (P := fun v => |v| ≤ 1) h0 fun s => (h.last s).theta),
    Axis.abs_mean_le (h.ok.psi.forall_cell (P := fun v => |v| ≤ 1) h0 fun s => (h.last s).psi)⟩

theorem speedOk_eventNode {c : Core ℝ G} (h : c.ball.SpeedOk 0.4) (p : Packet) :
    (c.eventNode p.key p.payload).ball.SpeedOk 0.4 := by
  rw [eventNode_eq]
  split
  · exact speedOk_next h _ _ _
  · exact h

theorem InRange.step {y : System ℝ G} (h : y.InRange) (e : SystemEvent) : (y.step e).InRange := by
  have hok := h.ok.step e
  cases e with
  | camera key payload now hkey => exact ⟨hok, h.last, h.master.packet key payload now, h.slave⟩
  | tick t => exact ⟨hok, h.last, h.master.tick h.sums.1 t, h.slave⟩
  | toSlave s i =>
    have hslave : ∀ s', ((y.step (.toSlave s i)).slave s').ball.SpeedOk 0.4 := by
      intro s'
      rw [slave_step]
      exact exec_induction (P := fun c : Core ℝ G => c.ball.SpeedOk 0.4)
        (fun c p hc => speedOk_eventNode hc p) (h.slave s') _
    refine ⟨hok, fun s' => ?_, ?_, hslave⟩
    · simp only [System.step]
      cases y.master.sent[i]? <;> exact h.last s'
    · rw [master_step]
      exact h.master
  | toMaster s i now =>
    simp only [System.step] at hok ⊢
    cases hu : (y.upds s)[i]? with
    | none => exact h
    | some u =>
      rw [hu] at hok
      refine ⟨hok, fun s' => ?_, h.master.packet _ _ now, h.slave⟩
      by_cases he : s' = s
      · subst he
        simpa [System.masterGets] using report_inRange u.2
      · simpa [System.masterGets, he] using h.last s'

theorem start_inRange : (start ℝ G).InRange where
  ok := start_ok
  last _ := by
    constructor <;> exact (abs_zero (α := ℝ)).le.trans zero_le_one
  master := masterStart_tickRanged
  slave s := speedOk_cMain s.1.1 s.1.2

/-- In every run of the system, however the network behaves and whatever the
camera sees: the ranges of the master hold, and every slave has position, speed
and rewards in range. -/
theorem system_ranged (evs : List SystemEvent) :
    let y := exec step (start ℝ G) evs
    MasterRanged y.master ∧ ∀ s, (y.slave s).ball.Ranged 0.4 := by
  intro y
  have h : y.InRange := exec_induction (P := InRange) (fun _ e hy => hy.step e) start_inRange evs
  obtain ⟨hv, ht, hp⟩ := h.sums
  have h1 : (0.4 : ℝ) ≤ 1 := by norm_num
  exact ⟨⟨h.master.ball.ranged h1, hv, h.master.oldVX, ⟨ht, hp⟩, h.master.errors⟩,
    fun s => (h.slave s).ranged h1⟩

end System

end Parallel

end BallController
