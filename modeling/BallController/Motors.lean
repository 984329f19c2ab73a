import BallController.Exploration
import BallController.Parallel.Overrun
import BallController.Sequential.Actor

/-! The motor commands of both versions. The clamp of the actor is symmetric and
so is the impulse, but the X servo rests 150 above the middle of its range: a
command is accepted exactly when its X component is below 0.702. What the actor
commands stays below as long as the contributions of the populations leave room
for the noise and, in the sequential version, for the step of `update_A` that
comes between. -/

namespace BallController
open Lib Spin1Math

namespace Axis

variable {ι : Type} [Fintype ι]

/-- How far noise can push an output, as learning and as exploration. -/
theorem output_learnActor_le (a : Axis ι ℝ) {n : ℝ} (hn : |n| ≤ 0.5888) :
    (a.learnActor n).output n ≤
      a.action + 3 / 10 * |a.error| * (mean fun i => a.rate i * a.rate i) + 0.02944 := by
  have hstep := action_learnActor n a
  have hq := mean_sq_nonneg a.rate
  have hsigma := (abs_le.mp (abs_sigmaOf_mul_le (v := (a.learnActor n).oldValue) hn)).2
  have hprod : -(learningRateA * a.error * n) ≤ 3 / 10 * |a.error| := by
    have habs : |a.error * n| ≤ |a.error| * 0.5888 := by
      rw [abs_mul]
      exact mul_le_mul_of_nonneg_left hn (abs_nonneg _)
    have hneg := (abs_le.mp habs).1
    have h0 := abs_nonneg a.error
    rw [learningRateA_eq]
    norm_num at hneg ⊢
    linarith
  have hlearn := mul_le_mul_of_nonneg_right hprod hq
  rw [output]
  linarith

omit [Fintype ι] in
/-- Rates move half way to activations, which are at most 1. -/
theorem fire_rate_mem {a : Axis ι ℝ} {r : ℝ} (hr : ∀ i, 0 ≤ a.rate i ∧ a.rate i ≤ r)
    (center : ι → ℝ) (p : ℝ) (i : ι) :
    0 ≤ (a.fire center p).rate i ∧ (a.fire center p).rate i ≤ (r + 1) / 2 := by
  obtain ⟨h0, h1⟩ := hr i
  have ha0 := activation_nonneg |p - center i|
  have ha1 := activation_le_one |p - center i|
  simp only [fire, tauM_eq]
  constructor <;> linarith

/-- Small weights, rates and errors leave room. -/
theorem room_le [Nonempty ι] {a : Axis ι ℝ} {w r e : ℝ} (hw : ∀ i, |a.actor i| ≤ w)
    (hr : ∀ i, 0 ≤ a.rate i ∧ a.rate i ≤ r) (he : |a.error| ≤ e) :
    a.action + 3 / 10 * |a.error| * (mean fun i => a.rate i * a.rate i) ≤
      w * r + 3 / 10 * e * (r * r) := by
  have hprod : ∀ {b : ι → ℝ} {c : ℝ}, (∀ i, |b i| ≤ c) → (mean fun i => b i * a.rate i) ≤ c * r := by
    intro b c hb
    refine (le_abs_self _).trans (abs_mean_le fun i => ?_)
    obtain ⟨h0, h1⟩ := hr i
    rw [abs_mul, abs_of_nonneg h0]
    exact mul_le_mul (hb i) h1 h0 ((abs_nonneg _).trans (hb i))
  have hsquare := hprod fun i => show |a.rate i| ≤ r by
    rw [abs_of_nonneg (hr i).1]
    exact (hr i).2
  have he0 := (abs_nonneg _).trans he
  have hlearn := mul_le_mul (show 3 / 10 * |a.error| ≤ 3 / 10 * e by linarith) hsquare
    (mean_sq_nonneg _) (by linarith)
  exact add_le_add (hprod hw) hlearn

end Axis

/-! ## The sequential program -/

namespace Sequential

variable {N : Nat} {G : Type}

namespace State

/-- The contributions to `theta`, with the rates that `mfm_` gets from the stored
ones at `pos_`, stay below the limit by what one step of `update_A` and the noise
can add. -/
def ActorRoom (s : State N ℝ G) : Prop :=
  let rate := fun i => s.fX i + (-s.fX i + activation |s.ball.pos.x - s.centerX i|) * tauM
  (Axis.mean fun i => s.wAThetaArray i * rate i) +
    3 / 10 * |s.errorX| * (Axis.mean fun i => rate i * rate i) ≤ 0.672

theorem actorRoom_iff (s : State N ℝ G) : s.ActorRoom ↔
    let a := s.axisX.fire s.centerX s.ball.pos.x
    a.action + 3 / 10 * |a.error| * (Axis.mean fun i => a.rate i * a.rate i) ≤ 0.672 := Iff.rfl

end State

/-- What the state must be like before a tick that calls `move` and does not stop:
the ball not too far out at a reset step, room for the actor elsewhere. -/
def CommandRoom (s : State N ℝ G) : Event → Prop
  | .camera _ _ => True
  | .tick t => s.timerOn = true ∧ s.state = .unbalanced → ¬s.Stops t →
      (t % resetStep = 0 → vNorm s.ball.pos > 0.6 → s.ball.pos.x < 0.702) ∧
      (t % resetStep ≠ 0 → s.ActorRoom)

variable [Prng G]

theorem eventFits_of_room {s : State N ℝ G} {e : Event} (h : CommandRoom s e) : EventFits s e := by
  cases e with
  | camera key now => trivial
  | tick t =>
    intro hon hstop
    have hstops : ¬s.Stops t := by
      rwa [State.Stops, State.beforeMove_ball] at hstop
    obtain ⟨hreset, hactor⟩ := h hon hstops
    refine ⟨?_, fun ht => ?_⟩
    · rw [State.beforeMove_ball]
      exact hreset
    · have hn := (abs_noise_le_radius (G := G) s.mfm.gen).1
      rw [← beforeMove_n] at hn
      have hout := (s.axisX.fire s.centerX s.ball.pos.x).output_learnActor_le hn
      have hroom := (State.actorRoom_iff s).mp (hactor ht)
      rw [(State.beforeMove_axes s).1]
      norm_num at hout hroom ⊢
      linarith

/-- A program whose populations are silent and whose weights are small leaves room
in its first two ticks. -/
theorem State.actorRoom_two {N : Nat} [Nonempty (Fin N)] {s : State N ℝ G}
    (hw : ∀ i, |s.wVXArray i| ≤ 1 / 10 ∧ |s.wAThetaArray i| ≤ 1 / 10) (hf : ∀ i, s.fX i = 0)
    (herr : s.errorX = 1) (hold : s.oldVX = 0) (t : Nat) : s.ActorRoom ∧ (s.learn t).ActorRoom := by
  have hsilent : ∀ i, 0 ≤ s.axisX.rate i ∧ s.axisX.rate i ≤ 0 := fun i => ⟨(hf i).ge, (hf i).le⟩
  have hrate := Axis.fire_rate_mem hsilent s.centerX s.ball.pos.x
  have hlearn := s.learn_axisX t
  have hn := (abs_noise_le_radius (G := G) s.mfm.gen).1
  rw [← beforeMove_n] at hn
  have hactor : ∀ i, |(s.learn t).wAThetaArray i| ≤ 1 / 4 := by
    intro i
    have hcell : (s.learn t).wAThetaArray i = s.wAThetaArray i - learningRateA * s.errorX *
        s.beforeMove.n.x * (s.axisX.fire s.centerX s.ball.pos.x).rate i :=
      congrFun (congrArg Axis.actor hlearn) i
    have hnr : |s.beforeMove.n.x * (s.axisX.fire s.centerX s.ball.pos.x).rate i| ≤ 3 / 10 := by
      rw [abs_mul, abs_of_nonneg (hrate i).1]
      exact (mul_le_mul hn (hrate i).2 (hrate i).1 (by norm_num)).trans (by norm_num)
    obtain ⟨h1, h2⟩ := abs_le.mp (hw i).2
    obtain ⟨h3, h4⟩ := abs_le.mp hnr
    rw [hcell, herr, learningRateA_eq, mul_one, mul_assoc, abs_le]
    constructor <;> linarith
  have herror : |(s.learn t).errorX| ≤ 1.01 := by
    have hvalue : |(s.axisX.fire s.centerX s.ball.pos.x).value| ≤ 1 / 20 := by
      refine Axis.abs_mean_le fun i => ?_
      rw [abs_mul, abs_of_nonneg (hrate i).1]
      exact (mul_le_mul (hw i).1 (hrate i).2 (hrate i).1 (by norm_num)).trans (by norm_num)
    have hr := BallParams.abs_rX_le
      (s.ball.normalizeBallParams s.tracker.xPos s.tracker.yPos t)
    obtain ⟨h1, h2⟩ := abs_le.mp hvalue
    obtain ⟨h3, h4⟩ := abs_le.mp hr
    rw [State.learn_errorX, hold, gamma_eq, invDeltaTime_eq, abs_le]
    norm_num
    constructor <;> linarith
  have hfired : ∀ i, 0 ≤ (s.learn t).axisX.rate i ∧ (s.learn t).axisX.rate i ≤ (0 + 1) / 2 := by
    rw [hlearn]
    exact hrate
  have herr0 : |s.errorX| ≤ 1 := by rw [herr, abs_one]
  rw [actorRoom_iff, actorRoom_iff]
  exact ⟨(Axis.room_le (fun i => (hw i).2) hrate herr0).trans (by norm_num),
    (Axis.room_le hactor (Axis.fire_rate_mem hfired _ _) herror).trans (by norm_num)⟩

theorem commandRoom_ticks_two (noiseSeed : Uint) :
    Along step CommandRoom (State.cMain nMFM ℝ G noiseSeed) [.tick 1, .tick 2] := by
  have hw := State.abs_cMain_weights_le (G := G) (N := nMFM) noiseSeed
  have hf := fun i => congrFun (State.cMain_fX (G := G) (N := nMFM) noiseSeed) i
  have herr := State.cMain_errorX (G := G) (N := nMFM) noiseSeed
  have hold := State.cMain_oldVX (G := G) (N := nMFM) noiseSeed
  have hon := State.cMain_timerOn (G := G) (N := nMFM) noiseSeed
  have hs := State.cMain_state (G := G) (N := nMFM) noiseSeed
  generalize State.cMain nMFM ℝ G noiseSeed = s at *
  obtain ⟨h1, h2⟩ := State.actorRoom_two hw hf (herr.trans (by norm_num))
    (hold.trans (by norm_num)) 1
  have htick : step s (.tick 1) = s.learn 1 := by
    rw [step, if_pos hon]
    exact (State.update_early hs (by decide) (by decide)).1
  refine ⟨fun _ _ => ⟨fun h => absurd h (by decide), fun _ => h1⟩,
    fun _ _ => ⟨fun h => absurd h (by decide), fun _ => ?_⟩, trivial⟩
  rw [htick]
  exact h2

end Sequential

/-! ## The master -/

namespace Parallel

variable {G : Type}

/-- The contributions that the master has stored stay below the limit by what the
noise can add, and no report without a cell arrives. -/
def CommandRoom (c : Core ℝ G) : MasterEvent → Prop
  | .packet key _ _ => ¬PastArrays key
  | .tick _ => c.timerOn = true ∧ c.state = .unbalanced → Axis.mean c.aThetaArray ≤ 0.672

theorem CommandRoom.inBounds {c : Core ℝ G} {e : MasterEvent} (h : CommandRoom c e) :
    e.InBounds := by
  cases e with
  | packet key payload now => exact h
  | tick t => trivial

variable [Prng G]

theorem eventFits_of_room {c : Core ℝ G} {e : MasterEvent} (h : CommandRoom c e) :
    EventFits c e := by
  cases e with
  | packet key payload now => trivial
  | tick t =>
    intro hon
    have hmean := h hon
    have hn := (abs_noise_le_radius (G := G) c.gen).1
    have hsigma := (abs_le.mp (abs_sigmaOf_mul_le (v := invDeltaTime * Axis.mean c.vXArray) hn)).2
    rw [Core.nextTheta]
    norm_num at hmean hsigma ⊢
    linarith

/-- The commands of a run of the master in which packets past the arrays have an
effect. -/
noncomputable def runCommandsWith (overrun : Overrun ℝ G) (evs : List MasterEvent) : List (ℝ × ℝ) :=
  (0, 0) :: emitted (masterStepWith overrun) commands (masterStart ℝ G) evs

theorem servoOk_of_room (overrun : Overrun ℝ G) {evs : List MasterEvent}
    (h : Along (masterStepWith overrun) CommandRoom (masterStart ℝ G) evs) :
    List.Forall₂ ServoOk (runCommandsWith overrun evs)
      (motorPackets (masterRunWith ℝ G overrun evs).sent) := by
  have hstep : ∀ (c : Core ℝ G) e, CommandRoom c e → masterStepWith overrun c e = masterStep c e :=
    fun c e he => masterStepWith_of_inBounds he.inBounds overrun c
  have hfits : Along masterStep EventFits (masterStart ℝ G) evs :=
    (h.along_eq hstep h).imp fun c e => eventFits_of_room
  rw [runCommandsWith, h.emitted_eq commands hstep, masterRunWith, h.exec_eq hstep]
  exact (servoOk_masterRun_iff evs).mpr hfits

/-- One report of 1/2 leaves the master room: no stored contribution exceeds it. -/
theorem commandRoom_report (overrun : Overrun ℝ G) :
    Along (masterStepWith overrun) CommandRoom (masterStart ℝ G)
      [.packet 0x40500000#32 0x13880000#32 0, .tick 1, .tick 2] := by
  let below : Core ℝ G → Prop := fun c => ∀ i, |c.aThetaArray i| ≤ 1 / 2
  have hroom : ∀ {c : Core ℝ G} {t}, below c → CommandRoom c (.tick t) :=
    fun h _ => ((le_abs_self _).trans (Axis.abs_mean_le h)).trans (by norm_num)
  have htick : ∀ {c : Core ℝ G} {t}, below c → below (masterStepWith overrun c (.tick t)) := by
    intro c t h
    have hsame : (masterStep c (.tick t)).aThetaArray = c.aThetaArray :=
      congrArg (fun p => p.2.1) (System.reports_tick t c)
    intro i
    show |(masterStep c (.tick t)).aThetaArray i| ≤ 1 / 2
    rw [hsame]
    exact h i
  have hcell : ¬PastArrays 0x40500000#32 := by decide
  have hstart : below (masterStepWith overrun (masterStart ℝ G)
      (.packet 0x40500000#32 0x13880000#32 0)) := by
    intro i
    have hw : (masterStepWith overrun (masterStart ℝ G)
        (.packet 0x40500000#32 0x13880000#32 0)).aThetaArray i =
          if i.val = 5 then (5000 : ℕ) / (10000.0 : ℝ) else 0 := by
      rw [masterStepWith, eventMasterWith_of_inBounds hcell]
      rfl
    rw [hw]
    split <;> norm_num [abs_of_pos]
  exact ⟨hcell, hroom hstart, hroom (htick hstart), trivial⟩

end Parallel

/-! ## Both versions -/

variable {G : Type} [Prng G]

/-- In every run of either version, the motor packets carry the commands of the
run, and these are positions the motors accept, if before every tick there is
room for the command: the ball less far out than the X servo reaches at a reset
step, the contributions of the populations below the limit by the reach of the
noise elsewhere. In the parallel version no report without a cell may arrive. -/
theorem servoOk_of_command_room (noiseSeed : Uint) {evs : List Sequential.Event}
    (hs : Along Sequential.step Sequential.CommandRoom
      (Sequential.State.cMain Sequential.nMFM ℝ G noiseSeed) evs)
    (overrun : Parallel.Overrun ℝ G) {mevs : List Parallel.MasterEvent}
    (hm : Along (Parallel.masterStepWith overrun) Parallel.CommandRoom (Parallel.masterStart ℝ G)
      mevs) (s : Parallel.SlaveCore ℝ G) :
    List.Forall₂ ServoOk (Sequential.runCommands Sequential.nMFM G noiseSeed evs)
        (motorPackets (Sequential.run Sequential.nMFM ℝ G noiseSeed evs).sent) ∧
      List.Forall₂ ServoOk (Parallel.runCommandsWith overrun mevs)
        (motorPackets (Parallel.masterRunWith ℝ G overrun mevs).sent) ∧
      s.packet.key ≠ motorsKey :=
  ⟨(Sequential.servoOk_run_iff noiseSeed evs).mpr
      (hs.imp fun _ _ => Sequential.eventFits_of_room),
    Parallel.servoOk_of_room overrun hm, Parallel.sendUpd_not_motor s.mem_slaves⟩

/-- Two ticks of either program, the master with a contribution of 1/2. -/
theorem servoOk_of_command_room_two :
    let overrun : Parallel.Overrun ℝ MuslRand := Parallel.linkedOverrun
    let mevs : List Parallel.MasterEvent :=
      [.packet 0x40500000#32 0x13880000#32 0, .tick 1, .tick 2]
    List.Forall₂ ServoOk (Sequential.runCommands Sequential.nMFM MuslRand 0 [.tick 1, .tick 2])
        (motorPackets (Sequential.run Sequential.nMFM ℝ MuslRand 0 [.tick 1, .tick 2]).sent) ∧
      List.Forall₂ ServoOk (Parallel.runCommandsWith overrun mevs)
        (motorPackets (Parallel.masterRunWith ℝ MuslRand overrun mevs).sent) := by
  intro overrun mevs
  obtain ⟨hs, hm, -⟩ := servoOk_of_command_room 0 (Sequential.commandRoom_ticks_two 0) overrun
    (Parallel.commandRoom_report overrun) ⟨Parallel.Core.cMain ℝ MuslRand 0 2, by decide⟩
  exact ⟨hs, hm⟩

/-- Without a camera sample the impulse of tick 200 pushes the ball from the
corner (0, 0) along x: the X servo is told to go to 2539. -/
theorem servoOk_fails_at_reset :
    ¬List.Forall₂ ServoOk (Sequential.runCommands Sequential.nMFM MuslRand 0 (Sequential.ticks 200))
      (motorPackets (Sequential.run Sequential.nMFM ℝ MuslRand 0 (Sequential.ticks 200)).sent) := by
  rw [Sequential.servoOk_run_iff, Sequential.ticks_succ 199, along_append]
  rintro ⟨_, hfits, _⟩
  have hstart := Sequential.quiet_cMain (N := Sequential.nMFM) (G := MuslRand) 0
  have hquiet := hstart.ticks (show 199 ≤ 300 by decide)
  have hpos := hstart.ticks_pos (show 0 < 199 by decide) (by decide)
  have hx := BallParams.normalizedPos_zero_mem.1.1
  have hnorm : vNorm (BallParams.normalizedPos 0 0 : Vector2d ℝ) > 0.6 :=
    lt_of_lt_of_le (by linarith) ((le_abs_self _).trans (BallParams.abs_x_le_vNorm _))
  have hlt := (hfits ⟨hquiet.timerOn, hquiet.state⟩ (fun h => absurd h.1 (by decide))).1 (by decide)
  rw [Sequential.State.beforeMove_ball, hpos] at hlt
  linarith [hlt hnorm]

end BallController
