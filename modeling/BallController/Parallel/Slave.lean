import BallController.Lib.Delivery
import BallController.Parallel.Senders
import BallController.Parallel.System

/-! A slave inside the parallel program: a core and the log of the UPD packets it
has sent, moved by the packets that reach it. Whatever the network does, these
are packets that the master has sent. -/

namespace BallController.Parallel
open Lib Spin1Math

section Defs

variable {α G : Type} [Field α] [LinearOrder α] [FloorRing α] [Libm α] [Prng G]

/-- What `eventNode` does with a new ERROR message. -/
def Core.process (c : Core α G) (p : Packet) : Core α G :=
  let c := { c with
    simCount := c.simCount + 1, nodeCounter := (p.key >>> 20) &&& 0x000000FF#32 }
  ((c.recErr p.key p.payload c.simCount.toNat).mfm.updateA).updateV.sendUpd

/-- A core and its UPD packets, each with the state it was made from. -/
structure Node (α G : Type) where
  core : Core α G
  upds : List (Packet × Core α G)

namespace Node

/-- A new ERROR message is processed and answered. -/
def answer (x : Node α G) (p : Packet) : Node α G where
  core := x.core.process p
  upds := x.upds ++ [((x.core.process p).sendUpdPacket, x.core.process p)]

def step (x : Node α G) (p : Packet) : Node α G :=
  if Core.IsNewError p.key x.core then x.answer p else x

end Node

/-- The slave `s` of a system as a node. -/
def System.node (s : SlaveId) (y : System α G) : Node α G := ⟨y.slave s, y.upds s⟩

end Defs

variable {G : Type} [Prng G]

theorem eventNode_eq (p : Packet) (c : Core ℝ G) :
    c.eventNode p.key p.payload = if Core.IsNewError p.key c then c.process p else c := rfl

/-- The condition of `eventNode` suppresses by the counter field. -/
theorem ite_isNewError {σ : Type} {evs : List MasterEvent} {j : Nat}
    (hj : j < (messages ℝ G evs).length) (core : σ → Core ℝ G) (handle : σ → Nat → σ) (x : σ) :
    (if Core.IsNewError (packetAt (messages ℝ G evs) j).key (core x) then handle x j else x) =
      suppress (stampAt (messages ℝ G evs)) (fun x => (core x).nodeCounter) handle x j :=
  if_congr (isNewError_packetAt hj (core x)) rfl rfl

/-! ## What a processed message writes -/

@[simp] theorem process_simCount (c : Core ℝ G) (p : Packet) :
    (c.process p).simCount = c.simCount + 1 := rfl

@[simp] theorem process_nodeCounter (c : Core ℝ G) (p : Packet) :
    (c.process p).nodeCounter = (p.key >>> 20) &&& 0x000000FF#32 := rfl

@[simp] theorem process_center (c : Core ℝ G) (p : Packet) : (c.process p).center = c.center := rfl

@[simp] theorem process_sent (c : Core ℝ G) (p : Packet) :
    (c.process p).sent = c.sent ++ [(c.process p).sendUpdPacket] := rfl

/-- One call of `noise`. -/
@[simp] theorem process_n (c : Core ℝ G) (p : Packet) : (c.process p).n = (noise c.gen).1 := rfl

@[simp] theorem process_gen (c : Core ℝ G) (p : Packet) :
    (c.process p).gen = (noise (α := ℝ) c.gen).2 := rfl

@[simp] theorem process_pos (c : Core ℝ G) (p : Packet) : (c.process p).ball.pos =
    BallParams.normalizedPos (Core.errPos p.key).1 (Core.errPos p.key).2 :=
  BallParams.normalizeBallParams_pos _ _ _ _

@[simp] theorem process_errorX (c : Core ℝ G) (p : Packet) :
    (c.process p).errorX = Core.errX p.key p.payload := rfl

@[simp] theorem process_errorY (c : Core ℝ G) (p : Packet) :
    (c.process p).errorY = Core.errY p.key p.payload := rfl

/-! ## A slave of the system -/

namespace System

theorem node_slaveGets (s : SlaveId) (p : Packet) (y : System ℝ G) :
    (y.slaveGets s p).node s = (y.node s).step p := by
  by_cases h : Core.IsNewError p.key (y.slave s)
  · have hc : (y.slave s).eventNode p.key p.payload = (y.slave s).process p := if_pos h
    have hx : (y.node s).step p = (y.node s).answer p := if_pos h
    rw [hx, node, slaveGets]
    simp only [Function.update_self, hc, process_sent, List.drop_left, List.map_singleton]
    rfl
  · have hc : (y.slave s).eventNode p.key p.payload = y.slave s := if_neg h
    have hx : (y.node s).step p = y.node s := if_neg h
    rw [hx, node, slaveGets]
    simp only [Function.update_self, hc, List.drop_length, List.map_nil, List.append_nil]
    rfl

theorem step_toSlave {y : System ℝ G} {s : SlaveId} {i : Nat} {p : Packet}
    (h : y.master.sent[i]? = some p) : y.step (.toSlave s i) = y.slaveGets s p := by
  simp only [step, h, Option.elim_some]

theorem node_slaveGets_of_ne {s s' : SlaveId} (h : s' ≠ s) (p : Packet) (y : System ℝ G) :
    (y.slaveGets s' p).node s = y.node s := by
  rw [node, slaveGets]
  simp only [Function.update_of_ne (Ne.symm h)]
  rfl

theorem node_step (s : SlaveId) (y : System ℝ G) (e : SystemEvent) :
    (y.step e).node s = exec Node.step (y.node s) (arrives s y e) := by
  cases e with
  | camera key payload now hkey => rfl
  | tick t => rfl
  | toSlave s' i =>
    simp only [System.step, arrives]
    by_cases he : s' = s
    · subst he
      rw [if_pos rfl]
      cases y.master.sent[i]? with
      | none => rfl
      | some p => exact node_slaveGets s' p y
    · rw [if_neg he]
      cases y.master.sent[i]? with
      | none => rfl
      | some p => exact node_slaveGets_of_ne he p y
  | toMaster s' i now =>
    simp only [System.step, arrives, exec_nil]
    cases (y.upds s')[i]? <;> rfl

/-- A slave of a run is what the packets that reached it make of it. -/
theorem node_eq (s : SlaveId) (evs : List SystemEvent) :
    (exec step (start ℝ G) evs).node s =
      exec Node.step ⟨Core.cMain ℝ G s.1.1 s.1.2, []⟩ (arrivals G s evs) :=
  exec_emitted (node_step s) (start ℝ G) evs

/-! ## What reaches a slave -/

theorem sent_mono (y : System ℝ G) (e : SystemEvent) : y.master.sent ⊆ (y.step e).master.sent := by
  have hlog := log_exec (fun c : Core ℝ G => c.sent) sent_step y.master (masterEvents y e)
  rw [master_step, hlog]
  exact List.subset_append_left _ _

/-- A slave gets nothing but packets of the master. -/
theorem arrivals_sent (s : SlaveId) (evs : List SystemEvent) :
    arrivals G s evs ⊆ (exec step (start ℝ G) evs).master.sent := by
  induction evs using List.reverseRecOn with
  | nil => exact List.nil_subset _
  | append_singleton evs e ih =>
    have hlog : arrivals G s (evs ++ [e]) =
        arrivals G s evs ++ arrives s (exec step (start ℝ G) evs) e :=
      emitted_concat (arrives s) _ evs e
    rw [hlog, exec_concat]
    refine List.append_subset.mpr
      ⟨List.Subset.trans ih (sent_mono _ e), List.Subset.trans ?_ (sent_mono _ e)⟩
    intro p hp
    cases e with
    | toSlave s' i =>
      simp only [arrives] at hp
      split at hp
      · exact List.mem_of_getElem? (Option.mem_toList.mp hp)
      · cases hp
    | camera key payload now hkey => cases hp
    | tick t => cases hp
    | toMaster s' i now => cases hp

/-- The errors that an ERROR packet carries are in the unit interval. -/
def Carried (p : Packet) : Prop := p.key &&& 0xF0000000#32 = errorMsg →
  |(Core.errX p.key p.payload : ℝ)| ≤ 1 ∧ |(Core.errY p.key p.payload : ℝ)| ≤ 1

theorem carried_of_sent {evs : List MasterEvent} {p : Packet}
    (hp : p ∈ (masterRun ℝ G evs).sent) : Carried p := by
  intro htag
  have hmem : p ∈ messages ℝ G evs := List.mem_filter.mpr ⟨hp, decide_eq_true htag⟩
  obtain ⟨j, hj, hget⟩ := List.getElem_of_mem hmem
  obtain ⟨m, -, hm, hok⟩ := message_spec hj
  have hpj : packetAt (messages ℝ G evs) j = p := (List.getD_eq_getElem _ _ hj).trans hget
  rw [hpj] at hm
  obtain ⟨hx, hy⟩ := hm.errors
  rw [hx, hy]
  exact ⟨(abs_quantize_le (by norm_num) _).trans hok.error_le.1,
    (abs_quantize_le (by norm_num) _).trans hok.error_le.2⟩

theorem arrivals_carried (s : SlaveId) (evs : List SystemEvent) :
    ∀ p ∈ arrivals G s evs, Carried p := by
  intro p hp
  have hsent := arrivals_sent s evs hp
  rw [master_eq] at hsent
  exact carried_of_sent hsent

end System

end BallController.Parallel
