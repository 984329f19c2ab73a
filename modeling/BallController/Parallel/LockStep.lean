import BallController.Lib.Delivery
import BallController.Parallel.Aggregates
import BallController.Parallel.Slave

/-! Master and slaves in lock step. The noise is not sent: every core draws its
own, from the same seed, the master once in the tick that sends an ERROR message
and a slave once for the message. When no message is lost the two counts agree,
whatever the timing, so the slaves learn with the noise of the command. -/

namespace BallController.Parallel
open Lib Spin1Math

section Defs

variable {α G : Type} [Field α] [LinearOrder α] [FloorRing α] [Libm α] [Prng G]

/-- The globals that all slaves have in common. -/
def Core.shared (c : Core α G) : Vector2d α × α × α × Vector2d α :=
  (c.ball.pos, c.errorX, c.errorY, c.n)

end Defs

variable {G : Type} [Prng G]

/-- A slave that has processed the message of the tick that left the master in
the state `m`. -/
structure InStep (m c : Core ℝ G) : Prop where
  n_eq : c.n = m.n
  pos_eq : c.ball.pos = m.ball.pos
  errorX_eq : c.errorX = quantize 10000 m.errorX
  errorY_eq : c.errorY = quantize 10000 m.errorY

omit [Prng G] in
theorem InStep.shared_eq {m c : Core ℝ G} (h : InStep m c) :
    c.shared = (m.ball.pos, quantize 10000 m.errorX, quantize 10000 m.errorY, m.n) := by
  rw [Core.shared, h.pos_eq, h.errorX_eq, h.errorY_eq, h.n_eq]

/-- The ERROR messages that have reached the slave `s` are those numbered `js`:
all of them up to some number, in sending order, each at least once. -/
structure Delivery (s : SlaveId) (evs : List SystemEvent) (js : List Nat) : Prop where
  arrivals_eq : errPackets (System.arrivals G s evs) =
    js.map (packetAt (messages ℝ G (System.masterEvs G evs)))
  sent : ∀ j ∈ js, j < (messages ℝ G (System.masterEvs G evs)).length
  first : ∀ j ∈ js.head?, j = 0
  inOrder : InOrder 1 js

/-! ## The slave takes the messages one by one -/

theorem node_errPackets (x : Node ℝ G) (ps : List Packet) :
    exec Node.step x (errPackets ps) = exec Node.step x ps := by
  have hskip : ∀ (x : Node ℝ G) p, decide (p.key &&& 0xF0000000#32 = errorMsg) = false →
      x.step p = x := by
    intro x p hp
    exact if_neg fun h => absurd h.1 (of_decide_eq_false hp)
  exact exec_filter hskip x ps

/-- Without losses a slave answers the messages 0, 1, 2, ... once each. -/
theorem Delivery.node_eq {s : SlaveId} {evs : List SystemEvent} {js : List Nat}
    (h : Delivery (G := G) s evs js) : (exec System.step (System.start ℝ G) evs).node s =
      exec (fun x j => x.answer (packetAt (messages ℝ G (System.masterEvs G evs)) j))
        ⟨Core.cMain ℝ G s.1.1 s.1.2, []⟩ (List.range js.dedup.length) := by
  have hstart := Core.cMain_slaveStart (G := G) (slaves_not_master s.1 s.2)
  have hseen : ∀ x : Node ℝ G, ∀ j ∈ js, (fun x : Node ℝ G => x.core.nodeCounter)
      (x.answer (packetAt (messages ℝ G (System.masterEvs G evs)) j)) =
        stampAt (messages ℝ G (System.masterEvs G evs)) j := fun _ _ _ => rfl
  have hsep : ∀ i ∈ js, ∀ j ∈ js, i < j → j ≤ i + 1 →
      stampAt (messages ℝ G (System.masterEvs G evs)) j ≠
        stampAt (messages ℝ G (System.masterEvs G evs)) i :=
    fun i _ j hj hij hw => stampAt_ne (h.sent j hj) hij (by omega)
  have hzero : ∀ j ∈ js.head?, stampAt (messages ℝ G (System.masterEvs G evs)) j ≠
      (fun x : Node ℝ G => x.core.nodeCounter) ⟨Core.cMain ℝ G s.1.1 s.1.2, []⟩ := by
    intro j hj
    dsimp only
    rw [hstart.nodeCounter]
    exact stampAt_ne_zero (h.sent j (List.mem_of_mem_head? hj)) (by rw [h.first j hj]; omega)
  have hsuppress : ∀ j ∈ js, ∀ x : Node ℝ G,
      x.step (packetAt (messages ℝ G (System.masterEvs G evs)) j) = _ :=
    fun j hj x => ite_isNewError (h.sent j hj) Node.core
      (fun x j => x.answer (packetAt (messages ℝ G (System.masterEvs G evs)) j)) x
  rw [System.node_eq, ← node_errPackets, h.arrivals_eq, exec_map, exec_congr _ hsuppress,
    ← h.inOrder.dedup_eq_range h.first]
  exact exec_suppress hseen hsep hzero h.inOrder

/-! ## The invariant -/

/-- A slave after the first `k` messages of the master's run `evs`. -/
structure Synced (evs : List MasterEvent) (k : Nat) (x : Node ℝ G) : Prop where
  gen_eq : x.core.gen = draws G k
  start : k = 0 → x.core.shared = (⟨-1, 0⟩, 1, 1, ⟨0, 0⟩)
  last : ∀ j, k = j + 1 → ∀ m ∈ (sendersOf G evs)[j]?, InStep m x.core
  upds : List.Forall₂ InStep ((sendersOf G evs).take k) (x.upds.map Prod.snd)

theorem synced_start (evs : List MasterEvent) (s : SlaveId) :
    Synced evs 0 ⟨Core.cMain ℝ G s.1.1 s.1.2, []⟩ := by
  have hstart := Core.cMain_slaveStart (G := G) (slaves_not_master s.1 s.2)
  refine ⟨hstart.gen, fun _ => ?_, fun j hj => absurd hj (by omega), List.Forall₂.nil⟩
  rw [Core.shared, hstart.pos, hstart.errors.1, hstart.errors.2, hstart.n]

/-- The next message: one more call of `noise`, and the data of its sender. -/
theorem Synced.answer {evs : List MasterEvent} {k : Nat} {x : Node ℝ G} (h : Synced evs k x)
    (hk : k < (messages ℝ G evs).length) :
    Synced evs (k + 1) (x.answer (packetAt (messages ℝ G evs) k)) := by
  obtain ⟨m, hm, hdec, hok⟩ := message_spec hk
  obtain ⟨hx, hy⟩ := hdec.errors
  have hstep : InStep m (x.core.process (packetAt (messages ℝ G evs) k)) := by
    refine ⟨?_, ?_, hx, hy⟩
    · rw [process_n, h.gen_eq, hok.noise_eq]
    · rw [process_pos, hdec.errPos, hok.pos_eq]
  refine ⟨?_, fun h0 => absurd h0 (by omega), fun j hj m' hm' => ?_, ?_⟩
  · have hgen : (x.answer (packetAt (messages ℝ G evs) k)).core.gen =
        (noise (α := ℝ) x.core.gen).2 := rfl
    rw [hgen, h.gen_eq, draws_succ]
  · obtain rfl : k = j := by omega
    obtain rfl := Option.mem_unique hm hm'
    exact hstep
  · have htake : (sendersOf G evs).take (k + 1) = (sendersOf G evs).take k ++ [m] := by
      rw [List.take_add_one, Option.mem_def.mp hm, Option.toList_some]
    rw [htake, Node.answer, List.map_append, List.map_singleton]
    exact List.rel_append h.upds (List.Forall₂.cons hstep List.Forall₂.nil)

theorem synced_exec (evs : List MasterEvent) (s : SlaveId) (k : Nat)
    (hk : k ≤ (messages ℝ G evs).length) :
    Synced evs k (exec (fun x j => x.answer (packetAt (messages ℝ G evs) j))
      ⟨Core.cMain ℝ G s.1.1 s.1.2, []⟩ (List.range k)) := by
  induction k with
  | zero => exact synced_start evs s
  | succ k ih =>
    rw [List.range_succ, exec_concat]
    exact (ih (by omega)).answer (by omega)

theorem Delivery.length_le {s : SlaveId} {evs : List SystemEvent} {js : List Nat}
    (h : Delivery (G := G) s evs js) :
    js.dedup.length ≤ (messages ℝ G (System.masterEvs G evs)).length := by
  have hsub : js.dedup ⊆ List.range (messages ℝ G (System.masterEvs G evs)).length :=
    fun j hj => List.mem_range.mpr (h.sent j (List.mem_dedup.mp hj))
  have hle := (js.nodup_dedup.subperm hsub).length_le
  rwa [List.length_range] at hle

theorem Delivery.synced {s : SlaveId} {evs : List SystemEvent} {js : List Nat}
    (h : Delivery (G := G) s evs js) : Synced (System.masterEvs G evs) js.dedup.length
      ((exec System.step (System.start ℝ G) evs).node s) := by
  rw [h.node_eq]
  exact synced_exec _ s _ h.length_le

/-- Slaves that have seen the same number of messages agree. -/
theorem Synced.shared_eq {evs : List MasterEvent} {k : Nat} {x x' : Node ℝ G}
    (h : Synced evs k x) (h' : Synced evs k x') (hk : k ≤ (messages ℝ G evs).length) :
    x.core.shared = x'.core.shared := by
  cases k with
  | zero => rw [h.start rfl, h'.start rfl]
  | succ j =>
    obtain ⟨m, hm, -⟩ := message_spec hk
    rw [(h.last j rfl m hm).shared_eq, (h'.last j rfl m hm).shared_eq]

theorem Synced.upds_length {evs : List MasterEvent} {k : Nat} {x : Node ℝ G} (h : Synced evs k x)
    (hk : k ≤ (messages ℝ G evs).length) : x.upds.length = k := by
  have hlen := h.upds.length_eq
  have hrun : (sendersOf G evs).length = (messages ℝ G evs).length :=
    (errPackets_run (G := G) evs).length_eq
  rw [List.length_take, List.length_map, hrun] at hlen
  omega

/-- The state in which the slave answered the `j`-th message. -/
theorem Synced.inStep {evs : List MasterEvent} {k j : Nat} {x : Node ℝ G} (h : Synced evs k x)
    {u : Packet × Core ℝ G} (hu : x.upds[j]? = some u) :
    ∃ m ∈ (sendersOf G evs)[j]?, InStep m u.2 := by
  obtain ⟨hj, rfl⟩ := List.getElem?_eq_some_iff.mp hu
  have hlen := h.upds.length_eq
  have hj' : j < (x.upds.map Prod.snd).length := by rwa [List.length_map]
  have hjk : j < ((sendersOf G evs).take k).length := by omega
  have hlt : j < (sendersOf G evs).length := by
    rw [List.length_take] at hjk
    omega
  refine ⟨(sendersOf G evs)[j], List.getElem?_eq_getElem hlt, ?_⟩
  have hget := h.upds.get hjk hj'
  simpa only [List.get_eq_getElem, List.getElem_take, List.getElem_map] using hget

/-- For every run of the system and every slave that has got all messages up to
some number: it has answered each of them once, and in the state of the answer
its noise and its position are those of the master in the tick that sent the
message, its errors those of the master up to the truncation. Hence two such
slaves agree message by message, and altogether when both have seen the same
number of messages. -/
theorem slaves_in_lock_step (evs : List SystemEvent) (s : SlaveId) {js : List Nat}
    (h : Delivery (G := G) s evs js) :
    let y : System ℝ G := exec System.step (System.start ℝ G) evs
    ((y.upds s).length = js.dedup.length ∧
      List.Forall₂ InStep ((sendersOf G (System.masterEvs G evs)).take js.dedup.length)
        ((y.upds s).map Prod.snd)) ∧
      ∀ s' js', Delivery (G := G) s' evs js' →
        (∀ (k : Nat) (u u' : Packet × Core ℝ G), (y.upds s)[k]? = some u →
          (y.upds s')[k]? = some u' → u.2.shared = u'.2.shared) ∧
          (js.dedup.length = js'.dedup.length → (y.slave s).shared = (y.slave s').shared) := by
  intro y
  have hs := h.synced
  refine ⟨⟨hs.upds_length h.length_le, hs.upds⟩, fun s' js' h' => ⟨?_, fun hlen => ?_⟩⟩
  · intro k u u' hu hu'
    obtain ⟨m, hm, hstep⟩ := hs.inStep hu
    obtain ⟨m', hm', hstep'⟩ := h'.synced.inStep hu'
    obtain rfl := Option.mem_unique hm hm'
    rw [hstep.shared_eq, hstep'.shared_eq]
  · have hs' := h'.synced
    rw [← hlen] at hs'
    exact hs.shared_eq hs' h.length_le

theorem delivery_copies (s : SlaveId) :
    Delivery (G := G) s [.tick 1, .toSlave s 3, .toSlave s 3] [0, 0] := by
  have hmaster : System.masterEvs G [.tick 1, .toSlave s 3, .toSlave s 3] = [.tick 1] := rfl
  have hfirst : messages ℝ G [.tick 1] = [System.firstError G] := messages_first 1
  have harrivals : System.arrivals G s [.tick 1, .toSlave s 3, .toSlave s 3] =
      [System.firstError G, System.firstError G] := System.arrivals_copies s 2
  have hkept : errPackets [System.firstError G] = [System.firstError G] := by
    rw [← hfirst]
    simp only [messages, errPackets, List.filter_filter, Bool.and_self]
  refine ⟨?_, ?_, by decide, by simp [InOrder]⟩
  · rw [hmaster, hfirst, harrivals]
    exact (errPackets_append [_] [_]).trans (by rw [hkept]; rfl)
  · rw [hmaster, hfirst]
    exact (by decide : ∀ j ∈ [0, 0], j < 1)

/-- The slave on core 2 of chip 0 gets the first message twice and answers once. -/
theorem slaves_in_lock_step_copies :
    let s : SlaveId := ⟨(0, 2), by decide⟩
    let y : System ℝ MuslRand :=
      exec System.step (System.start ℝ MuslRand) [.tick 1, .toSlave s 3, .toSlave s 3]
    (y.upds s).length = 1 ∧ List.Forall₂ InStep ((sendersOf MuslRand [.tick 1]).take 1)
      ((y.upds s).map Prod.snd) := by
  intro s y
  exact (slaves_in_lock_step _ s (delivery_copies s)).1

end BallController.Parallel
