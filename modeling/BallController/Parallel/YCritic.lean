import BallController.Parallel.Overrun
import BallController.Parallel.Slave

/-! The y critic of the parallel program is dead code. The master does not store
the `v_y` that it receives, its own `V_y` is 0, and no other variable of a slave
depends on `w_V_y` and `e_y`. So what the slaves learn about the y axis shows
nowhere but in the `v_y` bits of their packets, and the y error is the bare
reward. -/

namespace BallController.Parallel
open Lib Spin1Math

section Defs

variable {α G : Type} [Field α] [LinearOrder α] [FloorRing α] [Libm α] [Prng G]

/-- A slave without its y critic, and without the packets that report it. -/
def Core.withoutYCritic (c : Core α G) : Core α G := { c with eY := 0, wVY := 0, sent := [] }

/-- A node without its y critic, with the states that its packets were made from. -/
def Node.withoutYCritic (x : Node α G) : Core α G × List (Core α G) :=
  (x.core.withoutYCritic, x.upds.map fun u => u.2.withoutYCritic)

/-- The start with other y critics. -/
def System.startWith (α G : Type) [Field α] [LinearOrder α] [FloorRing α] [Libm α] [Prng G]
    (eY wVY : SlaveId → α) : System α G :=
  { start α G with slave := fun s => { Core.cMain α G s.1.1 s.1.2 with eY := eY s, wVY := wVY s } }

end Defs

/-- Two packets that agree outside the bits of `v_y`, its magnitude and its sign. -/
structure SameButVY (p p' : Packet) : Prop where
  payload : p.payload = p'.payload
  key : p.key &&& 0xDFF003FF#32 = p'.key &&& 0xDFF003FF#32

variable {G : Type}

/-! ## One slave -/

/-- What a function does to the rest of a core does not depend on the y critic. -/
def Ignores (f : Core ℝ G → Core ℝ G) : Prop :=
  ∀ c, (f c).withoutYCritic = (f c.withoutYCritic).withoutYCritic

theorem Ignores.congr {f : Core ℝ G → Core ℝ G} (hf : Ignores f) {c c' : Core ℝ G}
    (h : c.withoutYCritic = c'.withoutYCritic) : (f c).withoutYCritic = (f c').withoutYCritic := by
  rw [hf c, h, ← hf c']

theorem Ignores.comp {f g : Core ℝ G → Core ℝ G} (hg : Ignores g) (hf : Ignores f) :
    Ignores (g ∘ f) := fun c => hg.congr (hf c)

theorem ignores_recErr (key payload : Uint) (t : Nat) :
    Ignores (Core.recErr key payload t : Core ℝ G → Core ℝ G) := fun _ => rfl

theorem ignores_mfm : Ignores (Core.mfm : Core ℝ G → Core ℝ G) := fun _ => rfl

theorem ignores_updateV : Ignores (Core.updateV : Core ℝ G → Core ℝ G) := fun _ => rfl

theorem ignores_sendUpd : Ignores (Core.sendUpd : Core ℝ G → Core ℝ G) := fun _ => rfl

theorem isNewError_congr {c c' : Core ℝ G} (h : c.withoutYCritic = c'.withoutYCritic) (key : Uint) :
    Core.IsNewError key c ↔ Core.IsNewError key c' := by
  have hn : c.withoutYCritic.nodeCounter = c'.withoutYCritic.nodeCounter := by rw [h]
  exact and_congr_right fun _ => not_congr (by rw [show c.nodeCounter = c'.nodeCounter from hn])

/-- The y critic shows in no other product that a slave reports, ... -/
theorem products_congr {c c' : Core ℝ G} (h : c.withoutYCritic = c'.withoutYCritic) :
    c.updVX = c'.updVX ∧ c.updTheta = c'.updTheta ∧ c.updPsi = c'.updPsi ∧
      c.coreIndex = c'.coreIndex := by
  have hx : c.withoutYCritic.updVX = c'.withoutYCritic.updVX := by rw [h]
  have ht : c.withoutYCritic.updTheta = c'.withoutYCritic.updTheta := by rw [h]
  have hp : c.withoutYCritic.updPsi = c'.withoutYCritic.updPsi := by rw [h]
  have hi : c.withoutYCritic.coreIndex = c'.withoutYCritic.coreIndex := by rw [h]
  exact ⟨hx, ht, hp, hi⟩

theorem report_congr {c c' : Core ℝ G} (h : c.withoutYCritic = c'.withoutYCritic) :
    c.report.vX = c'.report.vX ∧ c.report.theta = c'.report.theta ∧ c.report.psi = c'.report.psi := by
  obtain ⟨hx, ht, hp, -⟩ := products_congr h
  exact ⟨congrArg (quantize 1000) hx, congrArg (quantize 10000) ht, congrArg (quantize 10000) hp⟩

/-- ... and in no other bit of its packet. -/
theorem sendUpdPacket_congr {c c' : Core ℝ G} (h : c.withoutYCritic = c'.withoutYCritic) :
    SameButVY c.sendUpdPacket c'.sendUpdPacket := by
  obtain ⟨hx, ht, hp, hi⟩ := products_congr h
  have hsign : ∀ c : Core ℝ G, Core.updSignVY.put (signBit c.updVY) &&& 0xDFF003FF#32 = 0#32 :=
    fun c => BitField.put_and_eq_zero (Nat.lt_succ_of_le (signBit_le c.updVY)) (by decide) (by decide)
  have hmag : ∀ c : Core ℝ G,
      Core.updFieldVY.put (magBits 1000 c.updVY) &&& 0xDFF003FF#32 = 0#32 := by
    intro c
    have hle := (magBits_le (k := 1000) (by decide) c.upd_mem.2.1).2
    exact BitField.put_and_eq_zero (Nat.lt_of_le_of_lt hle (by decide)) (by decide) (by decide)
  rw [Core.sendUpdPacket_eq, Core.sendUpdPacket_eq]
  refine ⟨by rw [ht, hp], ?_⟩
  simp only [Core.updFields, BitField.pack, BitVec.and_or_distrib_right, hsign, hmag, hx, ht, hp, hi]

/-- Packets made from states that differ in the y critic have the same effect on
the master, past the arrays as well. -/
theorem eventMasterWith_congr (overrun : Overrun ℝ G) {s : SlaveId} {u u' : Packet × Core ℝ G}
    (hu : SentBy s u) (hu' : SentBy s u') (h : u.2.withoutYCritic = u'.2.withoutYCritic)
    (m : Core ℝ G) (now : Nat) : m.eventMasterWith overrun u.1.key u.1.payload now =
      m.eventMasterWith overrun u'.1.key u'.1.payload now := by
  obtain ⟨hx, ht, hp⟩ := report_congr h
  by_cases hpast : PastArrays u.1.key
  · have hpast' : PastArrays u'.1.key :=
      (pastArrays_iff_of_sentBy hu').mpr ((pastArrays_iff_of_sentBy hu).mp hpast)
    rw [eventMasterWith_of_past hu hpast, eventMasterWith_of_past hu' hpast', hx, ht, hp]
  · have hcell : ¬PastArrays u'.1.key := fun hp =>
      hpast ((pastArrays_iff_of_sentBy hu).mpr ((pastArrays_iff_of_sentBy hu').mp hp))
    rw [eventMasterWith_of_inBounds hpast, eventMasterWith_of_inBounds hcell,
      eventMaster_of_sentBy hu, eventMaster_of_sentBy hu', hx, ht, hp]

variable [Prng G]

theorem ignores_updateA : Ignores (Core.updateA : Core ℝ G → Core ℝ G) := fun _ => rfl

theorem ignores_process (p : Packet) : Ignores fun c : Core ℝ G => c.process p := by
  intro c
  -- the message counters are the same with and without the y critic
  have hfun := ignores_sendUpd.comp (ignores_updateV.comp (ignores_updateA.comp
    (ignores_mfm.comp (ignores_recErr (G := G) p.key p.payload (c.simCount + 1).toNat))))
  exact hfun { c with
    simCount := c.simCount + 1, nodeCounter := (p.key >>> 20) &&& 0x000000FF#32 }

/-- The node is that of the slave `s`, and so are its packets. -/
structure Node.Own (s : SlaveId) (x : Node ℝ G) : Prop where
  id_eq : (x.core.chipID, x.core.coreID) = s.1
  sentBy : ∀ u ∈ x.upds, SentBy s u

theorem Node.Own.step {s : SlaveId} {x : Node ℝ G} (h : Node.Own s x) (p : Packet) :
    Node.Own s (x.step p) := by
  unfold Node.step
  split
  · refine ⟨h.id_eq, fun u hu => ?_⟩
    rcases List.mem_append.mp hu with hu | hu
    · exact h.sentBy u hu
    · obtain rfl := List.mem_singleton.mp hu
      exact ⟨h.id_eq, rfl⟩
  · exact h

/-- Two nodes of a slave that differ in the y critic and in what it shows of
itself. -/
structure Node.Alike (s : SlaveId) (x x' : Node ℝ G) : Prop where
  own : Node.Own s x
  own' : Node.Own s x'
  eq : x.withoutYCritic = x'.withoutYCritic
  sent : List.Forall₂ SameButVY x.core.sent x'.core.sent

theorem Node.Alike.step {s : SlaveId} {x x' : Node ℝ G} (h : Node.Alike s x x') (p : Packet) :
    Node.Alike s (x.step p) (x'.step p) := by
  obtain ⟨hcore, hupds⟩ := Prod.mk.inj h.eq
  have hown := h.own.step p
  have hown' := h.own'.step p
  by_cases hnew : Core.IsNewError p.key x.core
  · have hx : x.step p = x.answer p := if_pos hnew
    have hx' : x'.step p = x'.answer p := if_pos ((isNewError_congr hcore p.key).mp hnew)
    have hc := (ignores_process p).congr hcore
    rw [hx] at hown ⊢
    rw [hx'] at hown' ⊢
    refine ⟨hown, hown', Prod.ext hc ?_, ?_⟩
    · simp only [Node.withoutYCritic, Node.answer, List.map_append, List.map_cons, List.map_nil,
        hupds, hc]
    · simp only [Node.answer, process_sent]
      exact List.rel_append h.sent (List.Forall₂.cons (sendUpdPacket_congr hc) List.Forall₂.nil)
  · have hx : x.step p = x := if_neg hnew
    have hx' : x'.step p = x' := if_neg fun hc => hnew ((isNewError_congr hcore p.key).mpr hc)
    rw [hx, hx']
    exact h

/-! ## The system -/

namespace System

/-- Two systems that differ in the y critics alone. -/
structure Alike (y y' : System ℝ G) : Prop where
  master : y.master = y'.master
  node : ∀ s, Node.Alike s (y.node s) (y'.node s)

theorem Alike.step {y y' : System ℝ G} (h : Alike y y') (overrun : Overrun ℝ G) (e : SystemEvent) :
    Alike (y.stepWith overrun e) (y'.stepWith overrun e) := by
  cases e with
  | camera key payload now hkey =>
    refine ⟨?_, h.node⟩
    simp only [stepWith, h.master]
  | tick t =>
    refine ⟨?_, h.node⟩
    simp only [stepWith, System.step, h.master]
  | toSlave s i =>
    refine ⟨?_, fun s' => ?_⟩
    · simp only [stepWith, master_step]
      exact h.master
    · have harr : arrives s' y (.toSlave s i) = arrives s' y' (.toSlave s i) := by
        simp only [arrives, h.master]
      simp only [stepWith, node_step, harr]
      exact exec_simulation (R := Node.Alike s') (fun _ _ p hx _ => hx.step p) (h.node s')
        (along_events (P := fun _ => True).mpr fun _ _ => trivial)
  | toMaster s i now =>
    have hget : ((y.upds s).map fun u => u.2.withoutYCritic)[i]? =
        ((y'.upds s).map fun u => u.2.withoutYCritic)[i]? :=
      congrArg (·[i]?) (congrArg Prod.snd (h.node s).eq)
    rw [List.getElem?_map, List.getElem?_map] at hget
    simp only [stepWith]
    cases hu : (y.upds s)[i]? with
    | none =>
      rw [hu, Option.map_none] at hget
      rw [Option.map_eq_none_iff.mp hget.symm]
      exact h
    | some u =>
      rw [hu, Option.map_some] at hget
      obtain ⟨u', hu', heq⟩ := Option.map_eq_some_iff.mp hget.symm
      rw [hu']
      refine ⟨?_, h.node⟩
      have hsent := (h.node s).own.sentBy u (List.mem_of_getElem? hu)
      have hsent' := (h.node s).own'.sentBy u' (List.mem_of_getElem? hu')
      show y.master.eventMasterWith overrun _ _ now = y'.master.eventMasterWith overrun _ _ now
      rw [h.master]
      exact eventMasterWith_congr overrun hsent hsent' heq.symm _ now

theorem startWith_alike (eY wVY : SlaveId → ℝ) : Alike (startWith ℝ G eY wVY) (start ℝ G) where
  master := rfl
  node s := by
    have hid : ((Core.cMain ℝ G s.1.1 s.1.2).chipID, (Core.cMain ℝ G s.1.1 s.1.2).coreID) = s.1 :=
      Core.cMain_id s.1.1 s.1.2
    have hsent : (Core.cMain ℝ G s.1.1 s.1.2).sent = [] :=
      (Core.cMain_slaveStart (slaves_not_master s.1 s.2)).sent
    refine ⟨⟨hid, List.forall_mem_nil _⟩, ⟨hid, List.forall_mem_nil _⟩, rfl, ?_⟩
    show List.Forall₂ SameButVY (Core.cMain ℝ G s.1.1 s.1.2).sent (Core.cMain ℝ G s.1.1 s.1.2).sent
    rw [hsent]
    exact List.Forall₂.nil

/-- Whatever weights and traces the y critics of the slaves start with, however
the events interleave and whatever the reports without a cell do: the master goes
through the same states, so it sends the same commands and the same errors, the
slaves differ from those of the program in nothing but the y critic and their
packets, and these in nothing but the bits of `v_y`. -/
theorem y_critic_is_dead (overrun : Overrun ℝ G) (eY wVY : SlaveId → ℝ) (evs : List SystemEvent) :
    let y := exec (stepWith overrun) (start ℝ G) evs
    let y' := exec (stepWith overrun) (startWith ℝ G eY wVY) evs
    y'.master = y.master ∧ ∀ s, (y'.slave s).withoutYCritic = (y.slave s).withoutYCritic ∧
      List.Forall₂ SameButVY (y'.slave s).sent (y.slave s).sent := by
  intro y y'
  have h : Alike y' y := exec_simulation (R := Alike) (fun _ _ e h _ => h.step overrun e)
    (startWith_alike eY wVY) (along_events (P := fun _ => True).mpr fun _ _ => trivial)
  exact ⟨h.master, fun s => ⟨congrArg Prod.fst (h.node s).eq, (h.node s).sent⟩⟩

end System

/-! ## The error of the master -/

/-- The y error is the bare reward. -/
structure BareError (c : Core ℝ G) : Prop where
  errorY : c.errorY = c.ball.rY
  oldVY : c.oldVY = 0

omit [Prng G] in
theorem beforeMove_bareError {c : Core ℝ G} (h : c.oldVY = 0) (t : Nat) :
    BareError (c.beforeMove t) := by
  have hold : (c.beforeMove t).oldVY = invDeltaTime * c.vY := rfl
  have hvY : (c.beforeMove t).oldVY = 0 := by rw [hold, Core.vY_eq, mul_zero]
  refine ⟨?_, hvY⟩
  have herr : (c.beforeMove t).errorY = range ((c.beforeMove t).ball.rY +
      gamma * (invDeltaTime * c.vY) - c.oldVY) (-1.0) 1.0 := rfl
  obtain ⟨h1, h2⟩ := abs_le.mp (BallParams.abs_rY_le (c.beforeMove t).ball)
  rw [herr, Core.vY_eq, h, mul_zero, mul_zero, add_zero, sub_zero]
  exact range_of_mem (by norm_num; linarith) (by norm_num; linarith)

/-- The master before its first tick, or after it. -/
structure YInert (c : Core ℝ G) : Prop where
  oldVY : c.oldVY = 0
  error : (c.timerOn = true ∧ c.state = .unbalanced) ∨ c.errorY = c.ball.rY

theorem YInert.tick {c : Core ℝ G} (h : YInert c) (t : Nat) : BareError (masterStep c (.tick t)) := by
  by_cases hon : c.timerOn = true ∧ c.state = .unbalanced
  · have hupdate : BareError (c.update t) = BareError (if c.state = .unbalanced then
        (c.beforeSend t).sendErr (toUint c.tracker.xPos) (toUint c.tracker.yPos) else c) :=
      Core.update_frame BareError (fun c => propext
        ⟨fun h => ⟨h.errorY, h.oldVY⟩, fun h => ⟨h.errorY, h.oldVY⟩⟩) t c
    obtain ⟨he, ho⟩ := beforeMove_bareError h.oldVY t
    rw [masterStep, if_pos hon.1, hupdate, if_pos hon.2]
    exact ⟨he, ho⟩
  · have herr := h.error.resolve_left hon
    have hsame : (masterStep c (.tick t)).errorY = c.errorY ∧
        (masterStep c (.tick t)).ball = c.ball ∧ (masterStep c (.tick t)).oldVY = c.oldVY := by
      simp only [masterStep]
      split
      · next ht =>
        have hs : c.state ≠ .unbalanced := fun hs => hon ⟨ht, hs⟩
        refine ⟨?_, ?_, ?_⟩
        · rw [Core.update_frame (fun c => c.errorY) (fun _ => rfl), if_neg hs]
        · rw [Core.update_frame (fun c => c.ball) (fun _ => rfl), if_neg hs]
        · rw [Core.update_frame (fun c => c.oldVY) (fun _ => rfl), if_neg hs]
      · exact ⟨rfl, rfl, rfl⟩
    obtain ⟨h1, h2, h3⟩ := hsame
    exact ⟨by rw [h1, h2]; exact herr, by rw [h3]; exact h.oldVY⟩

omit [Prng G] in
theorem packet_frame (c : Core ℝ G) (key payload : Uint) (now : Nat) :
    let d := c.eventMaster key payload now
    (d.timerOn = c.timerOn ∧ d.state = c.state) ∧ d.errorY = c.errorY ∧ d.ball = c.ball ∧
      d.oldVY = c.oldVY := by
  simp only [Core.eventMaster]
  split_ifs <;> exact ⟨⟨rfl, rfl⟩, rfl, rfl, rfl⟩

theorem YInert.step {c : Core ℝ G} (h : YInert c) (e : MasterEvent) : YInert (masterStep c e) := by
  cases e with
  | packet key payload now =>
    obtain ⟨⟨ht, hs⟩, he, hb, ho⟩ := packet_frame c key payload now
    refine ⟨by rw [masterStep, ho]; exact h.oldVY, ?_⟩
    rw [masterStep, ht, hs, he, hb]
    exact h.error
  | tick t =>
    obtain ⟨he, ho⟩ := h.tick t
    exact ⟨ho, Or.inr he⟩

theorem masterStart_yInert : YInert (masterStart ℝ G) := by
  refine ⟨?_, Or.inl ⟨rfl, masterStart_unbalanced.2⟩⟩
  show (0.0 : ℝ) = 0
  norm_num

/-- From the first tick on the master is in the state a tick leaves. -/
theorem bareError_run {evs : List MasterEvent} {t : Nat} (ht : MasterEvent.tick t ∈ evs) :
    BareError (masterRun ℝ G evs) := by
  induction evs using List.reverseRecOn with
  | nil => cases ht
  | append_singleton evs e ih =>
    have hrun : masterRun ℝ G (evs ++ [e]) = masterStep (masterRun ℝ G evs) e :=
      exec_concat masterStep _ _ _
    have hinert : YInert (masterRun ℝ G evs) :=
      exec_induction (P := YInert) (fun _ e h => h.step e) masterStart_yInert evs
    rw [hrun]
    cases e with
    | packet key payload now =>
      obtain ⟨-, he, hb, ho⟩ := packet_frame (masterRun ℝ G evs) key payload now
      obtain ⟨h1, h2⟩ := ih (by simpa using ht)
      exact ⟨by rw [masterStep, he, hb]; exact h1, by rw [masterStep, ho]; exact h2⟩
    | tick t' => exact hinert.tick t'

/-- From the first tick on, whatever packets with a cell arrive and whatever those
without one would do, the y error of the master is the reward of its last tick,
and the noise of the y axis has its full factor. -/
theorem y_error_is_reward (overrun : Overrun ℝ G) {evs : List MasterEvent}
    (hcells : ∀ e ∈ evs, e.InBounds) {t : Nat} (ht : MasterEvent.tick t ∈ evs) :
    let c := masterRunWith ℝ G overrun evs
    c.errorY = c.ball.rY ∧ c.sigmaY = 0.05 := by
  intro c
  have hc : c = masterRun ℝ G evs := masterRunWith_of_inBounds overrun hcells
  have hbare : BareError c := hc ▸ bareError_run ht
  refine ⟨hbare.errorY, ?_⟩
  have hold : c.oldVY = 0 := hbare.oldVY
  rw [Core.sigmaY, hold]
  norm_num [sigmaOf, sigma0, kNoise, Spin1Math.min, Spin1Math.max]

/-- A report of core 2 of chip 0, with `v_y` and `psi` of 1/2, between two ticks. -/
theorem y_error_is_reward_between :
    let overrun : Overrun ℝ MuslRand := linkedOverrun
    let c := masterRunWith ℝ MuslRand overrun [.tick 1, .packet 0x4017D000#32 5000 3, .tick 2]
    c.errorY = c.ball.rY ∧ c.sigmaY = 0.05 := by
  intro overrun c
  have hcells : ∀ e ∈ [.tick 1, .packet 0x4017D000#32 5000 3, .tick 2], MasterEvent.InBounds e := by
    simp only [List.forall_mem_cons, MasterEvent.InBounds]
    exact ⟨trivial, by decide, trivial, by simp⟩
  exact y_error_is_reward overrun hcells (t := 2) (by simp)

end BallController.Parallel
