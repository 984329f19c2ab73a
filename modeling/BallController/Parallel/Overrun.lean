import BallController.Parallel.System

/-! Reports past the arrays. `rec_upd` does not check the number in the key: those
of the cores 12 to 15 of chip 257 have no cell, and their values go to whatever
globals the linker has put behind the arrays. Here the effect of its three stores
is a parameter. In a run without such reports it makes no difference, whatever it
is. -/

namespace BallController.Parallel
open Lib Spin1Math

section Defs

variable {α G : Type} [Field α] [LinearOrder α] [FloorRing α] [Libm α] [Prng G]

/-- What the stores `V_x_array[index]`, `A_theta_array[index]` and
`A_psi_array[index]` make of the master when the number is past the arrays. -/
abbrev Overrun (α G : Type) := Nat → α → α → α → Core α G → Core α G

/-- The effect in `BallController.elf`, where `A_theta_array`, `A_psi_array`,
`old_V_x`, `old_V_y`, `e_x`, `e_y` and `V_y_array` follow `V_x_array` in this
order. -/
def linkedOverrun : Overrun α G := fun index vX theta psi c =>
  { c with
    aThetaArray := c.aThetaArray.write (index - nMFM) vX
    aPsiArray := c.aPsiArray.write (index - nMFM) theta
    oldVX := if index = nMFM then psi else c.oldVX
    oldVY := if index = nMFM + 1 then psi else c.oldVY
    eX := if index = nMFM + 2 then psi else c.eX
    eY := if index = nMFM + 3 then psi else c.eY
    vYArray := if index = nMFM + 4 then c.vYArray.write 0 psi else c.vYArray }

/-- `rec_upd` gets the key, and finds no cell for the number in it. -/
def PastArrays (key : Uint) : Prop :=
  key &&& 0xC0000000#32 = updMsg ∧ nMFM ≤ ((key >>> 20) &&& 0x0000003F#32).toNat

instance (key : Uint) : Decidable (PastArrays key) := inferInstanceAs (Decidable (_ ∧ _))

def Core.eventMasterWith (overrun : Overrun α G) (key payload : Uint) (now : Nat) (c : Core α G) :
    Core α G :=
  if PastArrays key then
    let l : UpdLocals α := recUpdLocals key payload
    overrun l.index (l.vX / 1000.0) (l.theta / 10000.0) (l.psi / 10000.0) c
  else c.eventMaster key payload now

def masterStepWith (overrun : Overrun α G) (c : Core α G) : MasterEvent → Core α G
  | .packet key payload now => c.eventMasterWith overrun key payload now
  | .tick simTime => masterStep c (.tick simTime)

def masterRunWith (α G : Type) [Field α] [LinearOrder α] [FloorRing α] [Libm α] [Prng G]
    (overrun : Overrun α G) (evs : List MasterEvent) : Core α G :=
  exec (masterStepWith overrun) (masterStart α G) evs

/-- The system with that master. -/
def System.stepWith (overrun : Overrun α G) (y : System α G) : SystemEvent → System α G
  | .camera key payload now _ =>
    { y with master := y.master.eventMasterWith overrun key payload now }
  | .tick simTime => y.step (.tick simTime)
  | .toSlave s i => y.step (.toSlave s i)
  | .toMaster s i now => ((y.upds s)[i]?).elim y fun u => { y with
      master := y.master.eventMasterWith overrun u.1.key u.1.payload now
      last := Function.update y.last s u.2.report }

end Defs

/-- The event brings the master no report past the arrays. -/
def MasterEvent.InBounds : MasterEvent → Prop
  | .packet key _ _ => ¬PastArrays key
  | .tick _ => True

/-- The event brings the master no report of a slave without a cell. -/
def SystemEvent.InBounds : SystemEvent → Prop
  | .toMaster s _ _ => s.slot < nMFM
  | _ => True

variable {G : Type}

theorem eventMasterWith_of_inBounds {key : Uint} (h : ¬PastArrays key) (overrun : Overrun ℝ G)
    (payload : Uint) (now : Nat) (c : Core ℝ G) :
    c.eventMasterWith overrun key payload now = c.eventMaster key payload now := if_neg h

/-- The camera writes no array. -/
theorem not_pastArrays_camera {key : Uint} (h : key &&& 0xC0000000#32 ≠ updMsg) :
    ¬PastArrays key := fun hp => h hp.1

/-- A slave reports under its own number. -/
theorem pastArrays_iff_of_sentBy {s : SlaveId} {u : Packet × Core ℝ G} (h : SentBy s u) :
    PastArrays u.1.key ↔ nMFM ≤ s.slot := by
  have hmem : (u.2.chipID, u.2.coreID) ∈ slaves := h.id_eq ▸ s.2
  have hslot : ((u.1.key >>> 20) &&& 0x0000003F#32).toNat = s.slot := by
    rw [h.packet_eq]
    refine (Core.recUpdLocals_sendUpd hmem).1.trans ?_
    rw [h.id_eq]
    rfl
  have htag : u.1.key &&& 0xC0000000#32 = updMsg := by
    rw [h.packet_eq]
    exact Core.sendUpd_tag hmem
  rw [PastArrays, hslot]
  exact and_iff_right htag

/-- A report past the arrays, in terms of what it reports. -/
theorem eventMasterWith_of_past {overrun : Overrun ℝ G} {s : SlaveId} {u : Packet × Core ℝ G}
    (h : SentBy s u) (hpast : PastArrays u.1.key) (m : Core ℝ G) (now : Nat) :
    m.eventMasterWith overrun u.1.key u.1.payload now =
      overrun s.slot u.2.report.vX u.2.report.theta u.2.report.psi m := by
  have hmem : (u.2.chipID, u.2.coreID) ∈ slaves := h.id_eq ▸ s.2
  obtain ⟨hi, hx, -, ht, hp⟩ := Core.recUpdLocals_sendUpd hmem
  rw [h.id_eq] at hi
  rw [Core.eventMasterWith, if_pos hpast]
  simp only [h.packet_eq, hi, hx, ht, hp]
  rfl

variable [Prng G]

theorem masterStepWith_of_inBounds {e : MasterEvent} (h : e.InBounds) (overrun : Overrun ℝ G)
    (c : Core ℝ G) : masterStepWith overrun c e = masterStep c e := by
  cases e with
  | packet key payload now => exact eventMasterWith_of_inBounds h overrun payload now c
  | tick t => rfl

/-- A run of the master without reports past the arrays. -/
theorem masterRunWith_of_inBounds (overrun : Overrun ℝ G) {evs : List MasterEvent}
    (h : ∀ e ∈ evs, e.InBounds) : masterRunWith ℝ G overrun evs = masterRun ℝ G evs :=
  exec_congr _ (fun e he c => masterStepWith_of_inBounds (h e he) overrun c) _

namespace System

theorem stepWith_of_inBounds {y : System ℝ G} (hy : y.Ok) {e : SystemEvent} (h : e.InBounds)
    (overrun : Overrun ℝ G) : y.stepWith overrun e = y.step e := by
  cases e with
  | camera key payload now hkey =>
    rw [stepWith, eventMasterWith_of_inBounds (not_pastArrays_camera hkey)]
    rfl
  | tick t => rfl
  | toSlave s i => rfl
  | toMaster s i now =>
    simp only [stepWith, step]
    cases hu : (y.upds s)[i]? with
    | none => rfl
    | some u =>
      have hsent := hy.sentBy s u (List.mem_of_getElem? hu)
      have hcell : ¬PastArrays u.1.key := fun hp =>
        absurd ((pastArrays_iff_of_sentBy hsent).mp hp) (not_le.mpr h)
      simp only [Option.elim_some, eventMasterWith_of_inBounds hcell]
      rfl

/-- A run of the system without reports past the arrays. -/
theorem execWith_of_inBounds (overrun : Overrun ℝ G) {evs : List SystemEvent}
    (h : ∀ e ∈ evs, e.InBounds) :
    exec (stepWith overrun) (start ℝ G) evs = exec step (start ℝ G) evs := by
  have hok : Along step (fun y e => y.Ok ∧ e.InBounds) (start ℝ G) evs :=
    (along_of_invariant (P := fun y _ => y.Ok) (fun _ e hy => hy.step e) (fun _ _ hy => hy)
      start_ok evs).and (along_events.mpr h)
  exact (hok.exec_eq fun y e he => (stepWith_of_inBounds he.1 he.2 overrun).symm).symm

end System

end BallController.Parallel
