import BallController.Lib.Slots
import BallController.Parallel.Master

/-! The whole parallel program: the master, the 59 slaves and the network
between them. The network may deliver any packet that has been sent, at any
later time, any number of times or never. Beside the packets the state records
what a proof has to talk about: the slave state each UPD packet was made from,
and the contribution of every slave that the master received last. -/

namespace BallController.Parallel
open Lib Spin1Math

/-- One of the slaves that the `run` script starts. -/
abbrev SlaveId := { p : Uint × Uint // p ∈ slaves }

def SlaveId.slot (s : SlaveId) : Nat := Parallel.slot s.1

theorem SlaveId.slot_injective : Function.Injective SlaveId.slot := fun s s' h =>
  Subtype.ext (Parallel.slot_injective _ s.2 _ s'.2 h)

/-- The contribution of a slave to the four aggregates of the master. -/
structure Report (α : Type) where
  vX : α
  vY : α
  theta : α
  psi : α

/-- No contribution yet. -/
instance {α : Type} [Zero α] : Zero (Report α) := ⟨⟨0, 0, 0, 0⟩⟩

section Defs

variable {α G : Type} [Field α] [LinearOrder α] [FloorRing α] [Libm α] [Prng G]

/-- The quantised contribution that `send_upd` transmits. -/
def Core.report (c : Core α G) : Report α :=
  ⟨quantize 1000 c.updVX, quantize 1000 c.updVY, quantize 10000 c.updTheta, quantize 10000 c.updPsi⟩

structure System (α G : Type) where
  master : Core α G
  slave : SlaveId → Core α G
  /-- the UPD packets each slave has sent, with the states they were made from -/
  upds : SlaveId → List (Packet × Core α G)
  /-- the contribution of each slave that the master received last -/
  last : SlaveId → Report α

inductive SystemEvent
  /-- a packet of the camera reaches the master -/
  | camera (key payload : Uint) (now : Nat) (h : key &&& 0xC0000000#32 ≠ updMsg)
  /-- a timer tick of the master -/
  | tick (simTime : Nat)
  /-- the `i`-th packet of the master reaches the slave `s` -/
  | toSlave (s : SlaveId) (i : Nat)
  /-- the `i`-th packet of the slave `s` reaches the master -/
  | toMaster (s : SlaveId) (i : Nat) (now : Nat)

namespace System

/-- The slave `s` handles the packet `p`; what it sends goes to the network. -/
def slaveGets (y : System α G) (s : SlaveId) (p : Packet) : System α G :=
  let c := (y.slave s).eventNode p.key p.payload
  let new := (c.sent.drop (y.slave s).sent.length).map fun q => (q, c)
  { y with
    slave := Function.update y.slave s c
    upds := Function.update y.upds s (y.upds s ++ new) }

/-- The master handles the packet `u.1` that the slave `s` sent in the state `u.2`. -/
def masterGets (y : System α G) (s : SlaveId) (u : Packet × Core α G) (now : Nat) : System α G :=
  { y with
    master := y.master.eventMaster u.1.key u.1.payload now
    last := Function.update y.last s u.2.report }

def step (y : System α G) : SystemEvent → System α G
  | .camera key payload now _ => { y with master := y.master.eventMaster key payload now }
  | .tick simTime => { y with master := masterStep y.master (.tick simTime) }
  | .toSlave s i => (y.master.sent[i]?).elim y (y.slaveGets s)
  | .toMaster s i now => ((y.upds s)[i]?).elim y fun u => y.masterGets s u now

def start (α G : Type) [Field α] [LinearOrder α] [FloorRing α] [Libm α] [Prng G] : System α G where
  master := masterStart α G
  slave s := Core.cMain α G s.1.1 s.1.2
  upds _ := []
  last _ := 0

end System

end Defs

theorem card_slaveId : Fintype.card SlaveId = 59 := by decide

variable {G : Type}

/-! ## What a packet says -/

/-- The packet `u.1` was sent by the slave `s` in the state `u.2`. -/
structure SentBy (s : SlaveId) (u : Packet × Core ℝ G) : Prop where
  id_eq : (u.2.chipID, u.2.coreID) = s.1
  packet_eq : u.1 = u.2.sendUpdPacket

theorem eventMaster_of_sentBy {s : SlaveId} {u : Packet × Core ℝ G} (h : SentBy s u)
    (m : Core ℝ G) (now : Nat) : m.eventMaster u.1.key u.1.payload now = { m with
      vXArray := m.vXArray.write s.slot u.2.report.vX
      aThetaArray := m.aThetaArray.write s.slot u.2.report.theta
      aPsiArray := m.aPsiArray.write s.slot u.2.report.psi } := by
  have hmem : (u.2.chipID, u.2.coreID) ∈ slaves := h.id_eq ▸ s.2
  obtain ⟨hi, hx, _, ht, hp⟩ := Core.recUpdLocals_sendUpd hmem
  rw [h.id_eq] at hi
  rw [h.packet_eq, Core.eventMaster, if_pos (Core.sendUpd_tag hmem)]
  simp only [Core.recUpd, hi, hx, ht, hp]
  rfl

/-- A slave answers a new ERROR packet with the UPD packet of its new state, ... -/
theorem eventNode_sent [Prng G] {key : Uint} {c : Core ℝ G} (h : Core.IsNewError key c) (payload : Uint) :
    (c.eventNode key payload).sent = c.sent ++ [(c.eventNode key payload).sendUpdPacket] := by
  rw [Core.eventNode, if_pos h]
  rfl

/-- ... and nothing else with anything. -/
theorem eventNode_spec [Prng G] (key payload : Uint) (c : Core ℝ G) :
    (c.eventNode key payload).chipID = c.chipID ∧ (c.eventNode key payload).coreID = c.coreID ∧
      ((c.eventNode key payload).sent = c.sent ∨
        (c.eventNode key payload).sent = c.sent ++ [(c.eventNode key payload).sendUpdPacket]) := by
  by_cases h : Core.IsNewError key c
  · refine ⟨?_, ?_, Or.inr (eventNode_sent h payload)⟩ <;> rw [Core.eventNode, if_pos h] <;> rfl
  · rw [Core.eventNode, if_neg h]
    exact ⟨rfl, rfl, Or.inl rfl⟩

/-! ## The invariant -/

namespace System

/-- In every state of every run: a slave is who it is, the network carries what
was sent, and the arrays of the master hold the last contributions. -/
structure Ok (y : System ℝ G) : Prop where
  id_eq : ∀ s, ((y.slave s).chipID, (y.slave s).coreID) = s.1
  sentBy : ∀ s, ∀ u ∈ y.upds s, SentBy s u
  vX : Slotted SlaveId.slot y.master.vXArray fun s => (y.last s).vX
  theta : Slotted SlaveId.slot y.master.aThetaArray fun s => (y.last s).theta
  psi : Slotted SlaveId.slot y.master.aPsiArray fun s => (y.last s).psi

/-- The arrays that the reports go to. -/
def reports (m : Core ℝ G) : CArray nMFM ℝ × CArray nMFM ℝ × CArray nMFM ℝ :=
  (m.vXArray, m.aThetaArray, m.aPsiArray)

/-- The master may change as long as it keeps these arrays. -/
theorem Ok.withMaster {y : System ℝ G} (h : y.Ok) {m : Core ℝ G} (hm : reports m = reports y.master) :
    { y with master := m }.Ok := by
  have h1 : m.vXArray = y.master.vXArray := congrArg Prod.fst hm
  have h2 : m.aThetaArray = y.master.aThetaArray := congrArg (fun p => p.2.1) hm
  have h3 : m.aPsiArray = y.master.aPsiArray := congrArg (fun p => p.2.2) hm
  refine ⟨h.id_eq, h.sentBy, ?_, ?_, ?_⟩ <;> dsimp only
  · rw [h1]
    exact h.vX
  · rw [h2]
    exact h.theta
  · rw [h3]
    exact h.psi

theorem reports_eventMaster {key : Uint} (h : key &&& 0xC0000000#32 ≠ updMsg) (payload : Uint)
    (now : Nat) (m : Core ℝ G) : reports (m.eventMaster key payload now) = reports m := by
  rw [Core.eventMaster, if_neg h]
  split <;> rfl

theorem Ok.masterGets {y : System ℝ G} (h : y.Ok) {s : SlaveId} {u : Packet × Core ℝ G}
    (hu : SentBy s u) (now : Nat) : (y.masterGets s u now).Ok := by
  have hlast : ∀ f : Report ℝ → ℝ, (fun s' => f (Function.update y.last s u.2.report s')) =
      Function.update (fun s' => f (y.last s')) s (f u.2.report) := by
    intro f
    funext s'
    by_cases he : s' = s <;> simp [he]
  have hm := eventMaster_of_sentBy hu y.master now
  refine ⟨h.id_eq, h.sentBy, ?_, ?_, ?_⟩
  · simp only [System.masterGets, hm, hlast Report.vX]
    exact h.vX.write SlaveId.slot_injective s _
  · simp only [System.masterGets, hm, hlast Report.theta]
    exact h.theta.write SlaveId.slot_injective s _
  · simp only [System.masterGets, hm, hlast Report.psi]
    exact h.psi.write SlaveId.slot_injective s _

variable [Prng G]

theorem reports_tick (t : Nat) (m : Core ℝ G) : reports (masterStep m (.tick t)) = reports m := by
  simp only [masterStep]
  split
  · rw [Core.update_frame reports (fun _ => rfl)]
    split <;> rfl
  · rfl

theorem Ok.slaveGets {y : System ℝ G} (h : y.Ok) (s : SlaveId) (p : Packet) :
    (y.slaveGets s p).Ok := by
  obtain ⟨hchip, hcore, hsent⟩ := eventNode_spec p.key p.payload (y.slave s)
  have hid : (((y.slave s).eventNode p.key p.payload).chipID,
      ((y.slave s).eventNode p.key p.payload).coreID) = s.1 := by
    rw [hchip, hcore, h.id_eq s]
  refine ⟨fun s' => ?_, fun s' u hu => ?_, h.vX, h.theta, h.psi⟩
  · by_cases he : s' = s
    · subst he
      simpa [System.slaveGets] using hid
    · simpa [System.slaveGets, he] using h.id_eq s'
  · by_cases he : s' = s
    · subst he
      simp only [System.slaveGets, Function.update_self, List.mem_append] at hu
      rcases hu with hu | hu
      · exact h.sentBy s' u hu
      · rcases hsent with hsent | hsent
        · simp [hsent] at hu
        · rw [hsent, List.drop_left, List.map_singleton, List.mem_singleton] at hu
          rw [hu]
          exact ⟨hid, rfl⟩
    · simp only [System.slaveGets, Function.update_of_ne he] at hu
      exact h.sentBy s' u hu

theorem Ok.step {y : System ℝ G} (h : y.Ok) (e : SystemEvent) : (y.step e).Ok := by
  cases e with
  | camera key payload now hkey => exact h.withMaster (reports_eventMaster hkey payload now _)
  | tick t => exact h.withMaster (reports_tick t _)
  | toSlave s i =>
    simp only [System.step]
    cases y.master.sent[i]? with
    | none => exact h
    | some p => exact h.slaveGets s p
  | toMaster s i now =>
    simp only [System.step]
    cases hu : (y.upds s)[i]? with
    | none => exact h
    | some u => exact h.masterGets (h.sentBy s u (List.mem_of_getElem? hu)) now

theorem start_ok : (start ℝ G).Ok where
  id_eq s := Core.cMain_id s.1.1 s.1.2
  sentBy _ u hu := by cases hu
  vX := Slotted.init
  theta := Slotted.init
  psi := Slotted.init

/-! ## Projections -/

/-- What an event of the system is to the master. -/
def masterEvents (y : System ℝ G) : SystemEvent → List MasterEvent
  | .camera key payload now _ => [.packet key payload now]
  | .tick simTime => [.tick simTime]
  | .toSlave _ _ => []
  | .toMaster s i now => ((y.upds s)[i]?).toList.map fun u => .packet u.1.key u.1.payload now

/-- The packets that an event brings to the slave `s`. -/
def arrives (s : SlaveId) (y : System ℝ G) : SystemEvent → List Packet
  | .toSlave s' i => if s' = s then (y.master.sent[i]?).toList else []
  | _ => []

/-- The events of the master in a run of the system. -/
noncomputable def masterEvs (G : Type) [Prng G] (evs : List SystemEvent) : List MasterEvent :=
  emitted System.step masterEvents (start ℝ G) evs

/-- The packets that have reached the slave `s` in a run of the system. -/
noncomputable def arrivals (G : Type) [Prng G] (s : SlaveId) (evs : List SystemEvent) :
    List Packet :=
  emitted System.step (arrives s) (start ℝ G) evs

theorem master_step (y : System ℝ G) (e : SystemEvent) :
    (y.step e).master = exec masterStep y.master (masterEvents y e) := by
  cases e with
  | camera key payload now hkey => rfl
  | tick t => rfl
  | toSlave s i =>
    simp only [System.step, masterEvents, exec_nil]
    cases y.master.sent[i]? <;> rfl
  | toMaster s i now =>
    simp only [System.step, masterEvents]
    cases (y.upds s)[i]? <;> rfl

theorem slave_step (s : SlaveId) (y : System ℝ G) (e : SystemEvent) :
    (y.step e).slave s =
      exec (fun c p => c.eventNode p.key p.payload) (y.slave s) (arrives s y e) := by
  cases e with
  | camera key payload now hkey => rfl
  | tick t => rfl
  | toSlave s' i =>
    simp only [System.step, arrives]
    by_cases he : s' = s
    · subst he
      rw [if_pos rfl]
      cases y.master.sent[i]? with
      | none => rfl
      | some p => exact Function.update_self _ _ _
    · rw [if_neg he, exec_nil]
      cases y.master.sent[i]? with
      | none => rfl
      | some p => exact Function.update_of_ne (Ne.symm he) _ _
  | toMaster s' i now =>
    simp only [System.step, arrives, exec_nil]
    cases (y.upds s')[i]? <;> rfl

/-- The master of a run of the system is that of a run of the master, ... -/
theorem master_eq (evs : List SystemEvent) :
    (exec System.step (start ℝ G) evs).master = masterRun ℝ G (masterEvs G evs) :=
  exec_emitted master_step (start ℝ G) evs

/-- ... and a slave is what the packets that reached it make of it. -/
theorem slave_eq (s : SlaveId) (evs : List SystemEvent) :
    (exec System.step (start ℝ G) evs).slave s =
      exec (fun c p => c.eventNode p.key p.payload) (Core.cMain ℝ G s.1.1 s.1.2)
        (arrivals G s evs) :=
  @exec_emitted (System ℝ G) SystemEvent Packet System.step (Core ℝ G) (fun y => y.slave s)
    (fun c p => c.eventNode p.key p.payload) (arrives s) (slave_step s) (start ℝ G) evs

theorem master_tracker_ok (evs : List SystemEvent) :
    (exec System.step (start ℝ G) evs).master.tracker.Ok := by
  rw [master_eq]
  exact exec_induction tracker_step masterStart_ok _

end System

end BallController.Parallel
