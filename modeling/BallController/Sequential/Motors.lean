import BallController.Sequential.Spec

/-! The motor packets of a run of the sequential program. Each is the image of a
normalised command chosen by `move`; it is acceptable to the motors exactly when
the X component of the command is below 0.702, and this is a condition on the
state in which `move` is called. -/

namespace BallController.Sequential
open Lib Spin1Math

namespace State

section Defs

variable {N : Nat} {α G : Type} [Field α] [LinearOrder α] [FloorRing α] [Libm α] [Prng G]

/-- The X component of the command that `move` is about to send stays below
0.702: that of the impulse at a reset step, that of the actor elsewhere. -/
def CommandFits (simTime : Nat) (s : State N α G) : Prop :=
  ¬s.Stops simTime →
    (simTime % resetStep = 0 → vNorm s.ball.pos > 0.6 → s.ball.pos.x < 0.702) ∧
    (simTime % resetStep ≠ 0 → s.axisX.output s.n.x < 0.702)

end Defs

variable {N : Nat} {G : Type}

theorem motorCommand_lt_iff (t : Nat) (s : State N ℝ G) :
    (∀ c ∈ s.motorCommand t, c.1 < 0.702) ↔ s.CommandFits t := by
  have hclamp : range s.actorOutputs.1 (-1.0) 1.0 < 0.702 ↔
      s.axisX.output s.n.x < 0.702 := by
    rw [actorOutputs_eq]
    exact range_lt_iff (by norm_num) (by norm_num)
  unfold motorCommand CommandFits Stops
  split_ifs with h1 h2 h3
  · simp [h1]
    norm_num
  · simp [h1, h2, h3]
  · simp [h1, h2, h3]
  · simp [h1, h2, hclamp]

theorem motorCommand_mem {t : Nat} {s : State N ℝ G} (hx : |s.ball.pos.x| ≤ 1)
    (hy : |s.ball.pos.y| ≤ 1) : ∀ c ∈ s.motorCommand t, |c.1| ≤ 1 ∧ |c.2| ≤ 1 := by
  unfold motorCommand
  split_ifs
  · norm_num
  · simp [hx, hy]
  · simp
  · simp only [Option.mem_def, Option.some.injEq]
    rintro c rfl
    exact ⟨abs_range_le _, abs_range_le _⟩

end State

section Runs

variable {N : Nat} {α G : Type} [Field α] [LinearOrder α] [FloorRing α] [Libm α] [Prng G]

/-- The normalised commands an event sends. -/
def commands (s : State N α G) : Event → List (α × α)
  | .camera _ _ => []
  | .tick t =>
    if s.timerOn = true ∧ s.state = .unbalanced then (s.beforeMove.motorCommand t).toList else []

/-- The condition on the state before an event. -/
def EventFits (s : State N α G) : Event → Prop
  | .camera _ _ => True
  | .tick t => s.timerOn = true ∧ s.state = .unbalanced → s.beforeMove.CommandFits t

end Runs

variable {N : Nat} {G : Type} [Prng G]

theorem sent_step (s : State N ℝ G) (e : Event) :
    (step s e).sent = s.sent ++ (commands s e).map fun c => sendNormMotorCommand c.1 c.2 := by
  cases e with
  | camera key now =>
    simp only [step, State.cameraEvent, commands, List.map_nil, List.append_nil]
    split <;> rfl
  | tick t =>
    simp only [step, commands]
    by_cases ht : s.timerOn = true
    · rw [if_pos ht, State.update_frame (fun s => s.sent) (fun _ => rfl)]
      by_cases hs : s.state = .unbalanced <;> simp [ht, hs]
    · simp [ht]

theorem motorPackets_step (s : State N ℝ G) (e : Event) :
    motorPackets (step s e).sent = motorPackets s.sent ++
      (commands s e).map fun c => sendNormMotorCommand c.1 c.2 := by
  rw [sent_step, motorPackets_append, motorPackets_commands]

/-- The position is always one of the unit square. -/
def PosOk (s : State N ℝ G) : Prop := |s.ball.pos.x| ≤ 1 ∧ |s.ball.pos.y| ≤ 1

theorem posOk_step (s : State N ℝ G) (e : Event) (h : PosOk s) : PosOk (step s e) := by
  cases e with
  | camera key now =>
    simp only [step, State.cameraEvent]
    split <;> exact h
  | tick t =>
    simp only [step]
    split
    · unfold PosOk
      rw [State.update_frame (fun s => s.ball) (fun _ => rfl)]
      split
      · rw [State.learn_ball, BallParams.normalizeBallParams_pos]
        exact BallParams.abs_normalizedPos_le _ _
      · exact h
    · exact h

theorem posOk_cMain (noiseSeed : Uint) : PosOk (State.cMain N ℝ G noiseSeed) := by
  simp only [PosOk, State.cMain_pos]
  norm_num

theorem commands_lt_iff (s : State N ℝ G) (e : Event) :
    (∀ c ∈ commands s e, c.1 < 0.702) ↔ EventFits s e := by
  cases e with
  | camera key now => simp [commands, EventFits]
  | tick t =>
    simp only [commands, EventFits, ← State.motorCommand_lt_iff]
    split
    · next h => simp [h]
    · next h => simp [h]

theorem commands_mem (s : State N ℝ G) (e : Event) (h : PosOk s) :
    ∀ c ∈ commands s e, |c.1| ≤ 1 ∧ |c.2| ≤ 1 := by
  cases e with
  | camera key now => simp [commands]
  | tick t =>
    simp only [commands]
    split
    · simpa using State.motorCommand_mem (t := t) (s := s.beforeMove) (by simpa using h.1)
        (by simpa using h.2)
    · simp

/-- The commands of a run, with the plate-levelling one of `startDevices`. -/
noncomputable def runCommands (N : Nat) (G : Type) [Prng G] (noiseSeed : Uint) (evs : List Event) :
    List (ℝ × ℝ) :=
  (0, 0) :: emitted step commands (State.cMain N ℝ G noiseSeed) evs

/-- The motor packets of a run are those of its commands, in order. -/
theorem motorPackets_run (noiseSeed : Uint) (evs : List Event) :
    motorPackets (run N ℝ G noiseSeed evs).sent =
      (runCommands N G noiseSeed evs).map fun c => sendNormMotorCommand c.1 c.2 := by
  unfold run runCommands
  rw [log_exec (fun s : State N ℝ G => motorPackets s.sent) motorPackets_step,
    State.cMain_sent, motorPackets_startDevices (α := ℝ), List.map_cons, emitted_map]
  rfl

theorem runCommands_mem (noiseSeed : Uint) (evs : List Event) :
    ∀ c ∈ runCommands N G noiseSeed evs, |c.1| ≤ 1 ∧ |c.2| ≤ 1 := by
  refine List.forall_mem_cons.mpr ⟨by simp, ?_⟩
  exact forall_emitted.mpr (along_of_invariant posOk_step commands_mem (posOk_cMain noiseSeed) evs)

/-- Every motor packet of a run is acceptable exactly when every tick of the
run finds a state in which the command fits. -/
theorem servoOk_run_iff (noiseSeed : Uint) (evs : List Event) :
    List.Forall₂ ServoOk (runCommands N G noiseSeed evs)
        (motorPackets (run N ℝ G noiseSeed evs).sent) ↔
      Along step EventFits (State.cMain N ℝ G noiseSeed) evs := by
  rw [motorPackets_run, forall_servoOk_iff (runCommands_mem noiseSeed evs), runCommands,
    List.forall_mem_cons, forall_emitted,
    along_congr (I := fun _ => True) (fun _ _ h _ => h) (fun s e _ => commands_lt_iff s e) trivial evs]
  exact and_iff_right (by norm_num)

end BallController.Sequential
