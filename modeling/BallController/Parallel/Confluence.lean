import BallController.Lib.Interleaving
import BallController.Parallel.Overrun

/-! The order in which the network delivers. Between two ticks the camera packets
and the traffic of each slave may be interleaved in any way: the slaves write
different cells of the arrays of the master, the camera its tracker, and neither
sends. Only the ticks read both. -/

namespace BallController.Parallel
open Lib Spin1Math

variable {G : Type}

/-! ## The master -/

/-- The handler of the master sends nothing. -/
theorem eventMaster_sent (c : Core ℝ G) (key payload : Uint) (now : Nat) :
    (c.eventMaster key payload now).sent = c.sent := by
  rw [Core.eventMaster]
  split
  · rfl
  · split <;> rfl

theorem eventMaster_camera_comm {s : SlaveId} {u : Packet × Core ℝ G} (hu : SentBy s u) {key : Uint}
    (h : key &&& 0xC0000000#32 ≠ updMsg) (payload : Uint) (now now' : Nat) (m : Core ℝ G) :
    (m.eventMaster key payload now).eventMaster u.1.key u.1.payload now' =
      (m.eventMaster u.1.key u.1.payload now').eventMaster key payload now := by
  rw [eventMaster_of_sentBy hu, eventMaster_of_sentBy hu, Core.eventMaster, Core.eventMaster,
    if_neg h, if_neg h]
  split <;> rfl

theorem eventMaster_upd_comm {s s' : SlaveId} (hne : s ≠ s') {u u' : Packet × Core ℝ G}
    (hu : SentBy s u) (hu' : SentBy s' u') (now now' : Nat) (m : Core ℝ G) :
    (m.eventMaster u.1.key u.1.payload now).eventMaster u'.1.key u'.1.payload now' =
      (m.eventMaster u'.1.key u'.1.payload now').eventMaster u.1.key u.1.payload now := by
  have hslot : s.slot ≠ s'.slot := fun h => hne (SlaveId.slot_injective h)
  simp only [eventMaster_of_sentBy hu, eventMaster_of_sentBy hu', CArray.write_comm hslot]

/-! ## The system -/

variable [Prng G]

namespace System

/-- A tick is on every lane, a camera packet on one of its own, and what reaches
a slave or comes from it on that of the slave. -/
def lane : Option SlaveId → SystemEvent → Bool
  | _, .tick _ => true
  | k, .camera _ _ _ _ => k.isNone
  | k, .toSlave s _ => decide (k = some s)
  | k, .toMaster s _ _ => decide (k = some s)

theorem lane_self (e : SystemEvent) : ∃ k, lane k e = true := by
  cases e with
  | camera key payload now h => exact ⟨none, rfl⟩
  | tick t => exact ⟨none, rfl⟩
  | toSlave s i => exact ⟨some s, decide_eq_true rfl⟩
  | toMaster s i now => exact ⟨some s, decide_eq_true rfl⟩

/-- What the slave `s` does commutes with what is not on its lane, ... -/
theorem slaveGets_step {s : SlaveId} {d : SystemEvent} (hd : lane (some s) d = false) (p : Packet)
    (y : System ℝ G) : (y.step d).slaveGets s p = (y.slaveGets s p).step d := by
  cases d with
  | camera key payload now h => rfl
  | tick t => cases hd
  | toSlave s' i =>
    have hne : s ≠ s' := fun h => of_decide_eq_false hd (congrArg some h)
    simp only [step]
    cases hp : y.master.sent[i]? with
    | none => simp [slaveGets, hp]
    | some p' =>
      simp only [slaveGets, hp, Option.elim_some, Function.update_of_ne hne,
        Function.update_of_ne hne.symm, Function.update_comm hne]
  | toMaster s' i now =>
    have hne : s ≠ s' := fun h => of_decide_eq_false hd (congrArg some h)
    simp only [step]
    have hupds : (y.slaveGets s p).upds s' = y.upds s' := Function.update_of_ne hne.symm _ _
    rw [hupds]
    cases (y.upds s')[i]? <;> rfl

/-- ... and so does a packet of the slave `s` to the master. -/
theorem masterGets_step {s : SlaveId} {d : SystemEvent} (hd : lane (some s) d = false)
    {u : Packet × Core ℝ G} (hu : SentBy s u) (now : Nat) {y : System ℝ G} (hy : y.Ok) :
    (y.step d).masterGets s u now = (y.masterGets s u now).step d := by
  cases d with
  | camera key payload now' h =>
    simp only [step, masterGets, eventMaster_camera_comm hu h]
  | tick t => cases hd
  | toSlave s' i =>
    simp only [step]
    have hsent : (y.masterGets s u now).master.sent = y.master.sent := eventMaster_sent _ _ _ _
    rw [hsent]
    cases y.master.sent[i]? <;> rfl
  | toMaster s' i now' =>
    have hne : s ≠ s' := fun h => of_decide_eq_false hd (congrArg some h)
    simp only [step]
    have hupds : (y.masterGets s u now).upds s' = y.upds s' := rfl
    rw [hupds]
    cases hu' : (y.upds s')[i]? with
    | none => rfl
    | some u' =>
      have hsent := hy.sentBy s' u' (List.mem_of_getElem? hu')
      simp only [Option.elim_some, masterGets, eventMaster_upd_comm hne hu hsent,
        Function.update_comm hne]

/-- An event that is not a tick changes nothing that another lane looks up. -/
theorem sent_step_of_lane {s : SlaveId} {d : SystemEvent} (hd : lane (some s) d = false)
    (y : System ℝ G) : (y.step d).master.sent = y.master.sent := by
  cases d with
  | camera key payload now h => exact eventMaster_sent _ _ _ _
  | tick t => cases hd
  | toSlave s' i =>
    simp only [step]
    cases y.master.sent[i]? <;> rfl
  | toMaster s' i now =>
    simp only [step]
    cases (y.upds s')[i]? with
    | none => rfl
    | some u => exact eventMaster_sent _ _ _ _

theorem upds_step_of_lane {s : SlaveId} {d : SystemEvent} (hd : lane (some s) d = false)
    (y : System ℝ G) : (y.step d).upds s = y.upds s := by
  cases d with
  | camera key payload now h => rfl
  | tick t => cases hd
  | toSlave s' i =>
    have hne : s ≠ s' := fun h => of_decide_eq_false hd (congrArg some h)
    simp only [step]
    cases y.master.sent[i]? with
    | none => rfl
    | some p => exact Function.update_of_ne hne _ _
  | toMaster s' i now =>
    simp only [step]
    cases (y.upds s')[i]? <;> rfl

theorem toSlave_comm {s : SlaveId} {d : SystemEvent} (hd : lane (some s) d = false) (i : Nat)
    (y : System ℝ G) : (y.step d).step (.toSlave s i) = (y.step (.toSlave s i)).step d := by
  show ((y.step d).master.sent[i]?).elim (y.step d) ((y.step d).slaveGets s) =
    ((y.master.sent[i]?).elim y (y.slaveGets s)).step d
  rw [sent_step_of_lane hd]
  cases y.master.sent[i]? with
  | none => rfl
  | some p => exact slaveGets_step hd p y

theorem toMaster_comm {s : SlaveId} {d : SystemEvent} (hd : lane (some s) d = false) (i now : Nat)
    {y : System ℝ G} (hy : y.Ok) :
    (y.step d).step (.toMaster s i now) = (y.step (.toMaster s i now)).step d := by
  show (((y.step d).upds s)[i]?).elim (y.step d) (fun u => (y.step d).masterGets s u now) =
    (((y.upds s)[i]?).elim y fun u => y.masterGets s u now).step d
  rw [upds_step_of_lane hd]
  cases hu : (y.upds s)[i]? with
  | none => rfl
  | some u => exact masterGets_step hd (hy.sentBy s u (List.mem_of_getElem? hu)) now hy

theorem independent : Independent (System.step (α := ℝ) (G := G)) lane Ok where
  keep _ e hy := hy.step e
  on := lane_self
  comm y d e hy h := by
    have hd : ∀ k, lane k e = true → lane k d = false := fun k hk =>
      Bool.eq_false_iff.mpr fun hd => Bool.eq_false_iff.mp (h k hd) hk
    cases e with
    | tick t =>
      obtain ⟨k, hk⟩ := lane_self d
      cases h k hk
    | toSlave s i => exact toSlave_comm (hd (some s) (decide_eq_true rfl)) i y
    | toMaster s i now => exact toMaster_comm (hd (some s) (decide_eq_true rfl)) i now hy
    | camera key payload now hkey =>
      cases d with
      | tick t => cases h none rfl
      | camera key' payload' now' hkey' => cases h none rfl
      | toSlave s i => exact (toSlave_comm (h (some s) (decide_eq_true rfl)) i y).symm
      | toMaster s i now' => exact (toMaster_comm (h (some s) (decide_eq_true rfl)) i now' hy).symm

/-- The same events on every lane are the same events. -/
theorem mem_of_sameLanes {evs evs' : List SystemEvent} (h : SameLanes lane evs evs')
    {e : SystemEvent} (he : e ∈ evs') : e ∈ evs := by
  obtain ⟨k, hk⟩ := lane_self e
  have hmem : e ∈ evs'.filter (lane k) := List.mem_filter.mpr ⟨he, hk⟩
  rw [← h k] at hmem
  exact (List.mem_filter.mp hmem).1

/-- For any two runs of the parallel program in which the camera packets and the
ticks come in the same order, and the ticks and the traffic of every slave as
well: if no report without a cell reaches the master, the runs end in the same
state of the master, of all slaves and of the network, whatever such a report
would do. How the traffic of different slaves and of the camera is interleaved
between two ticks makes no difference. -/
theorem interleaving_irrelevant (overrun : Overrun ℝ G) {evs evs' : List SystemEvent}
    (h : SameLanes lane evs evs') (hcells : ∀ e ∈ evs, e.InBounds) :
    exec (stepWith overrun) (start ℝ G) evs = exec (stepWith overrun) (start ℝ G) evs' := by
  rw [execWith_of_inBounds overrun hcells,
    execWith_of_inBounds overrun fun e he => hcells e (mem_of_sameLanes h he)]
  exact independent.exec_eq start_ok h

/-- The first ERROR message reaches two slaves and their reports the master, in
either order and before or after a camera packet. -/
theorem interleaving_irrelevant_reports :
    let a : SlaveId := ⟨(0, 2), by decide⟩
    let b : SlaveId := ⟨(0, 3), by decide⟩
    let camera : SystemEvent := .camera 0x00004001#32 0 5 (by decide)
    let overrun : Overrun ℝ MuslRand := linkedOverrun
    exec (stepWith overrun) (start ℝ MuslRand) [.tick 1, .toSlave a 3, .toSlave b 3, .toMaster a 0 5,
        camera, .toMaster b 0 5, .tick 2] =
      exec (stepWith overrun) (start ℝ MuslRand) [.tick 1, .toSlave b 3, .toMaster b 0 5, camera,
        .toSlave a 3, .toMaster a 0 5, .tick 2] := by
  intro a b camera overrun
  have hab : a ≠ b := by decide
  have ha : a.slot < nMFM := by decide
  have hb : b.slot < nMFM := by decide
  refine interleaving_irrelevant overrun (fun k => ?_) ?_
  · cases k with
    | none => rfl
    | some s =>
      by_cases ha : s = a
      · have hb : s ≠ b := fun h => hab (ha.symm.trans h)
        simp [List.filter_cons, lane, camera, ha, hab]
      · simp [List.filter_cons, lane, camera, ha]
  · simp [SystemEvent.InBounds, camera, ha, hb]

end System

end BallController.Parallel
