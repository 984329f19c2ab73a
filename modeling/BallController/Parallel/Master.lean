import BallController.Parallel.Messages

/-! Runs of the master: the tracker invariant, and the packets of a run. Every
tick of an unbalanced master sends one motor packet and one ERROR packet. -/

namespace BallController.Parallel
open Lib Spin1Math

section Defs

variable {α G : Type} [Field α] [LinearOrder α] [FloorRing α] [Libm α] [Prng G]

/-- The normalised command of a tick, the two clamped actor outputs. -/
def Core.command (t : Nat) (c : Core α G) : α × α :=
  let outputs := (c.beforeMove t).drawNoise.actorOutputs
  (range outputs.1 (-1.0) 1.0, range outputs.2 (-1.0) 1.0)

/-- The normalised commands an event sends. -/
def commands (c : Core α G) : MasterEvent → List (α × α)
  | .packet _ _ _ => []
  | .tick t => if c.timerOn = true ∧ c.state = .unbalanced then [c.command t] else []

/-- The states in which `send_err` returns. -/
def senders (c : Core α G) : MasterEvent → List (Core α G)
  | .packet _ _ _ => []
  | .tick t =>
    if c.timerOn = true ∧ c.state = .unbalanced then
      [(c.beforeSend t).sendErr (toUint c.tracker.xPos) (toUint c.tracker.yPos)]
    else []

/-- The packets an event sends. -/
def sends (c : Core α G) : MasterEvent → List Packet
  | .packet _ _ _ => []
  | .tick t =>
    if c.timerOn = true ∧ c.state = .unbalanced then
      [sendNormMotorCommand (c.command t).1 (c.command t).2,
        (c.beforeSend t).sendErrPacket (toUint c.tracker.xPos) (toUint c.tracker.yPos)]
    else []

/-- The X component of the next command before the clamp: the mean of the
reported actions, and the next noise scaled by what the next value allows. -/
def Core.nextTheta (c : Core α G) : α :=
  Axis.mean c.aThetaArray + sigmaOf (invDeltaTime * Axis.mean c.vXArray) * (noise c.gen).1.x

/-- The X component of the command that `move` is about to send stays below
0.702. -/
def EventFits (c : Core α G) : MasterEvent → Prop
  | .packet _ _ _ => True
  | .tick _ => c.timerOn = true ∧ c.state = .unbalanced → c.nextTheta < 0.702

end Defs

/-- The packets with the tag of ERROR_MSG among those sent. -/
def errPackets (sent : List Packet) : List Packet :=
  sent.filter fun p => p.key &&& 0xF0000000#32 = errorMsg

@[simp] theorem errPackets_append (l l' : List Packet) :
    errPackets (l ++ l') = errPackets l ++ errPackets l' := List.filter_append l l'

variable {G : Type} [Prng G]

/-! ## Step lemmas -/

theorem sent_step (c : Core ℝ G) (e : MasterEvent) : (masterStep c e).sent = c.sent ++ sends c e := by
  cases e with
  | packet key payload now =>
    simp only [masterStep, Core.eventMaster, sends, List.append_nil]
    split_ifs <;> rfl
  | tick t =>
    simp only [masterStep, sends]
    by_cases ht : c.timerOn = true
    · rw [if_pos ht, Core.update_frame (fun c => c.sent) (fun _ => rfl)]
      by_cases hs : c.state = .unbalanced
      · simp [ht, hs, Core.sendErr, Core.beforeSend_sent, Core.command]
      · simp [hs]
    · simp [ht]

theorem tracker_step (c : Core ℝ G) (e : MasterEvent) (h : c.tracker.Ok) :
    (masterStep c e).tracker.Ok := by
  cases e with
  | packet key payload now =>
    simp only [masterStep, Core.eventMaster]
    split_ifs
    · exact h
    · exact h.computePos key
    · exact h
  | tick t =>
    simp only [masterStep]
    split
    · rw [Core.update_frame (fun c => c.tracker) (fun _ => rfl)]
      split <;> exact h
    · exact h

theorem masterStart_tracker : (masterStart ℝ G).tracker = Tracker.init := rfl

theorem masterStart_sent : (masterStart ℝ G).sent = startDevices := rfl

theorem masterStart_ok : (masterStart ℝ G).tracker.Ok := by
  rw [masterStart_tracker]
  exact Tracker.init_ok

/-- The tracker bounds make the ERROR packet of a tick fit its fields. -/
theorem errFits_beforeSend {c : Core ℝ G} (h : c.tracker.Ok) (t : Nat) :
    (c.beforeSend t).ErrFits (toUint c.tracker.xPos) (toUint c.tracker.yPos) := by
  have hx := h.x.pos_mem
  have hy := h.y.pos_mem
  have ex := toNat_toUint (i := c.tracker.xPos) (by omega) (by omega)
  have ey := toNat_toUint (i := c.tracker.yPos) (by omega) (by omega)
  obtain ⟨hex, hey⟩ := Core.beforeSend_error_mem t c
  exact ⟨by omega, by omega, hex, hey⟩

/-! ## ERROR packets -/

/-- What the packet `p` of the sender `m` means to the slaves: the counter
decides whether it is new, `rec_err` gets the position exactly and the errors
truncated toward zero to multiples of 1/10000, and a slave that finds it new
goes through its five steps with these data. -/
structure ErrDecodes (m : Core ℝ G) (p : Packet) : Prop where
  tag : p.key >>> 28 = errorMsg >>> 28
  counter : (p.key >>> 20) &&& 0x000000FF#32 = m.counter
  errPos : Core.errPos p.key = (m.tracker.xPos, m.tracker.yPos)
  isNewError : ∀ c : Core ℝ G, c.IsNewError p.key ↔ m.counter ≠ c.nodeCounter
  recErr : ∀ (c : Core ℝ G) (t : Nat), c.recErr p.key p.payload t = { c with
    ball := c.ball.normalizeBallParams m.tracker.xPos m.tracker.yPos t
    errorX := quantize 10000 m.errorX
    errorY := quantize 10000 m.errorY }
  eventNode : ∀ c : Core ℝ G, c.eventNode p.key p.payload =
    if m.counter ≠ c.nodeCounter then
      Core.sendUpd (Core.updateV (Core.updateA (Core.mfm { c with
        simCount := c.simCount + 1
        nodeCounter := m.counter
        ball := c.ball.normalizeBallParams m.tracker.xPos m.tracker.yPos (c.simCount + 1).toNat
        errorX := quantize 10000 m.errorX
        errorY := quantize 10000 m.errorY })))
    else c

omit [Prng G] in
/-- A tracked position survives the passage as unsigned arguments. -/
theorem toInt_tracked {c : Core ℝ G} (h : c.tracker.Ok) :
    ((toUint c.tracker.xPos).toInt, (toUint c.tracker.yPos).toInt) =
      (c.tracker.xPos, c.tracker.yPos) := by
  have hx := h.x.pos_mem
  have hy := h.y.pos_mem
  rw [toInt_toUint (by omega), toInt_toUint (by omega)]

theorem errDecodes_sendErr {c : Core ℝ G} (h : c.tracker.Ok) (t : Nat) :
    ErrDecodes ((c.beforeSend t).sendErr (toUint c.tracker.xPos) (toUint c.tracker.yPos))
      ((c.beforeSend t).sendErrPacket (toUint c.tracker.xPos) (toUint c.tracker.yPos)) := by
  have hf := errFits_beforeSend h t
  have hcounter := Core.sendErr_counter hf
  have hpos := (Core.sendErr_pos hf).trans (toInt_tracked h)
  have hnew : ∀ d : Core ℝ G, d.IsNewError
      ((c.beforeSend t).sendErrPacket (toUint c.tracker.xPos) (toUint c.tracker.yPos)).key ↔
        (c.beforeSend t).nextCounter ≠ d.nodeCounter := by
    intro d
    rw [Core.IsNewError, hcounter]
    exact and_iff_right (Core.sendErr_tag hf)
  refine ⟨?_, hcounter, hpos, hnew, fun d t' => ?_, fun d => ?_⟩
  · have h28 := Core.get_sendErr_key hf (p := (Core.errTag, 0xA)) (by simp [Core.errFields])
    rw [BitField.get_top (by decide)] at h28
    exact h28
  · simp only [Core.recErr, hpos, Core.sendErr_errX hf, Core.sendErr_errY hf]
    rfl
  · rw [Core.eventNode]
    refine if_congr (hnew d) ?_ rfl
    simp only [Core.recErr, hpos, hcounter, Core.sendErr_errX hf, Core.sendErr_errY hf]
    rfl

/-- A tick that sends contributes its ERROR packet; the motor packet has another tag. -/
theorem errPackets_sends_tick {c : Core ℝ G} (h : c.tracker.Ok) (t : Nat)
    (hon : c.timerOn = true ∧ c.state = .unbalanced) : errPackets (sends c (.tick t)) =
      [(c.beforeSend t).sendErrPacket (toUint c.tracker.xPos) (toUint c.tracker.yPos)] := by
  have htag := Core.sendErr_tag (errFits_beforeSend h t)
  have hm : motorsKey &&& 0xF0000000#32 ≠ errorMsg := by decide
  rw [sends, if_pos hon, errPackets,
    List.filter_cons_of_neg (by simp [sendNormMotorCommand, sendMotorCommand, hm]),
    List.filter_cons_of_pos (by simpa using htag), List.filter_nil]

theorem errPackets_sends {c : Core ℝ G} (h : c.tracker.Ok) (e : MasterEvent) :
    List.Forall₂ ErrDecodes (senders c e) (errPackets (sends c e)) := by
  cases e with
  | packet key payload now => exact List.Forall₂.nil
  | tick t =>
    by_cases hon : c.timerOn = true ∧ c.state = .unbalanced
    · rw [errPackets_sends_tick h t hon, senders, if_pos hon]
      exact List.Forall₂.cons (errDecodes_sendErr h t) List.Forall₂.nil
    · rw [senders, sends, if_neg hon, if_neg hon]
      exact List.Forall₂.nil

theorem errPackets_step (c : Core ℝ G) (e : MasterEvent) :
    errPackets (masterStep c e).sent = errPackets c.sent ++ errPackets (sends c e) := by
  rw [sent_step, errPackets_append]

/-- The ERROR packets of a run are those of its calls of `send_err`, in order. -/
theorem errPackets_run (evs : List MasterEvent) :
    List.Forall₂ ErrDecodes (emitted masterStep senders (masterStart ℝ G) evs)
      (errPackets (masterRun ℝ G evs).sent) := by
  have hlog := log_exec (fun c : Core ℝ G => errPackets c.sent) errPackets_step
    (masterStart ℝ G) evs
  have hstart : errPackets (masterStart ℝ G).sent = [] := by
    rw [masterStart_sent]
    decide
  rw [masterRun, hlog, hstart, List.nil_append]
  exact forall₂_emitted tracker_step (fun c e h => errPackets_sends h e) masterStart_ok evs

/-- In every run of the master, the ERROR packets on the network are, in order,
those of the calls of `send_err`, and each one decodes to the data its sender
had. What an error loses by the truncation is less than 1/10000 and never its
sign. -/
theorem error_msg_round_trip (evs : List MasterEvent) :
    List.Forall₂ ErrDecodes (emitted masterStep senders (masterStart ℝ G) evs)
        (errPackets (masterRun ℝ G evs).sent) ∧
      ∀ e : ℝ, |quantize 10000 e - e| < 1 / 10000 ∧ 0 ≤ quantize 10000 e * e :=
  ⟨errPackets_run evs, fun e =>
    ⟨abs_quantize_sub_lt (by norm_num) e, quantize_mul_self_nonneg (by norm_num) e⟩⟩

/-! ## Motor packets -/

theorem motorPackets_sends {c : Core ℝ G} (h : c.tracker.Ok) (e : MasterEvent) :
    motorPackets (sends c e) = (commands c e).map fun c => sendNormMotorCommand c.1 c.2 := by
  cases e with
  | packet key payload now => rfl
  | tick t =>
    have htag := Core.sendErr_tag (errFits_beforeSend h t)
    have hkey : ((c.beforeSend t).sendErrPacket (toUint c.tracker.xPos)
        (toUint c.tracker.yPos)).key ≠ motorsKey := by
      intro he
      rw [he] at htag
      exact absurd htag (by decide)
    simp only [sends, commands]
    split
    · simp [motorPackets, hkey, sendNormMotorCommand, sendMotorCommand]
    · rfl

theorem commands_mem (c : Core ℝ G) (e : MasterEvent) :
    ∀ p ∈ commands c e, |p.1| ≤ 1 ∧ |p.2| ≤ 1 := by
  cases e with
  | packet key payload now => simp [commands]
  | tick t =>
    simp only [commands]
    split
    · rw [List.forall_mem_singleton]
      exact ⟨abs_range_le _, abs_range_le _⟩
    · simp

theorem command_fst_lt_iff (t : Nat) (c : Core ℝ G) :
    (c.command t).1 < 0.702 ↔ c.nextTheta < 0.702 := by
  have ho : (c.beforeMove t).drawNoise.actorOutputs.1 = c.nextTheta := by
    simp only [Core.actorOutputs, Core.actorMeans_eq]
    simp only [Core.nextTheta, ← Core.vX_eq]
    rfl
  rw [← ho]
  exact range_lt_iff (by norm_num) (by norm_num)

theorem commands_lt_iff (c : Core ℝ G) (e : MasterEvent) :
    (∀ p ∈ commands c e, p.1 < 0.702) ↔ EventFits c e := by
  cases e with
  | packet key payload now => simp [commands, EventFits]
  | tick t =>
    simp only [commands, EventFits, ← command_fst_lt_iff t]
    split
    · next h => simp [h]
    · next h => simp [h]

/-- The commands of a run, with the plate-levelling one of `startDevices`. -/
noncomputable def runCommands (G : Type) [Prng G] (evs : List MasterEvent) : List (ℝ × ℝ) :=
  (0, 0) :: emitted masterStep commands (masterStart ℝ G) evs

theorem motorPackets_step (c : Core ℝ G) (e : MasterEvent) :
    motorPackets (masterStep c e).sent = motorPackets c.sent ++ motorPackets (sends c e) := by
  rw [sent_step, motorPackets_append]

theorem motorPackets_run (evs : List MasterEvent) :
    motorPackets (masterRun ℝ G evs).sent =
      (runCommands G evs).map fun c => sendNormMotorCommand c.1 c.2 := by
  have hlog := log_exec (fun c : Core ℝ G => motorPackets c.sent) motorPackets_step
    (masterStart ℝ G) evs
  rw [masterRun, hlog, masterStart_sent, motorPackets_startDevices (α := ℝ), runCommands,
    List.map_cons, emitted_map, emitted_congr tracker_step (fun c e h => motorPackets_sends h e)
    masterStart_ok]
  rfl

/-- Every motor packet of a run is acceptable exactly when every tick of the
run finds a state in which the command fits. -/
theorem servoOk_masterRun_iff (evs : List MasterEvent) :
    List.Forall₂ ServoOk (runCommands G evs) (motorPackets (masterRun ℝ G evs).sent) ↔
      Along masterStep EventFits (masterStart ℝ G) evs := by
  have hmem : ∀ c ∈ runCommands G evs, |c.1| ≤ 1 ∧ |c.2| ≤ 1 := by
    refine List.forall_mem_cons.mpr ⟨by simp, ?_⟩
    exact forall_emitted.mpr (along_of_invariant (I := fun _ => True) (fun _ _ h => h)
      (fun c e _ => commands_mem c e) trivial evs)
  rw [motorPackets_run, forall_servoOk_iff hmem, runCommands, List.forall_mem_cons, forall_emitted,
    along_congr (I := fun _ => True) (fun _ _ h _ => h) (fun c e _ => commands_lt_iff c e) trivial evs]
  exact and_iff_right (by norm_num)

omit [Prng G] in
/-- A slave never addresses the motors. -/
theorem sendUpd_not_motor {c : Core ℝ G} (h : (c.chipID, c.coreID) ∈ slaves) :
    c.sendUpdPacket.key ≠ motorsKey := by
  intro he
  have htag := Core.sendUpd_tag h
  rw [he] at htag
  exact absurd htag (by decide)

end BallController.Parallel
