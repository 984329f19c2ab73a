import BallController.Draws
import BallController.Parallel.Lifetime
import BallController.Parallel.LockStep

/-! What a lost message costs. A slave draws its noise once for every message it
answers, not once for every message sent. If it misses one it still learns from
the position and the errors of each later message, but with the noise of an
earlier command: with musl's generator it is out of step until whole periods of
`rand` have been lost. -/

namespace BallController.Parallel
open Lib Spin1Math

variable {G : Type} [Prng G]

/-- The ERROR messages that have reached the slave `s` are those numbered `js`,
in sending order, in any number of copies, the first of them among the first 49
and fewer than 49 missing between two of them. -/
structure LossyDelivery (s : SlaveId) (evs : List SystemEvent) (js : List Nat) : Prop where
  arrivals_eq : errPackets (System.arrivals G s evs) =
    js.map (packetAt (messages ℝ G (System.masterEvs G evs)))
  sent : ∀ j ∈ js, j < (messages ℝ G (System.masterEvs G evs)).length
  first : ∀ j ∈ js.head?, j < 49
  inOrder : InOrder 49 js

/-- The messages that arrive are answered once each. -/
theorem LossyDelivery.node_eq {s : SlaveId} {evs : List SystemEvent} {js : List Nat}
    (h : LossyDelivery (G := G) s evs js) : (exec System.step (System.start ℝ G) evs).node s =
      exec (fun x j => x.answer (packetAt (messages ℝ G (System.masterEvs G evs)) j))
        ⟨Core.cMain ℝ G s.1.1 s.1.2, []⟩ js.dedup := by
  have hstart := Core.cMain_slaveStart (G := G) (slaves_not_master s.1 s.2)
  have hseen : ∀ x : Node ℝ G, ∀ j ∈ js, (fun x : Node ℝ G => x.core.nodeCounter)
      (x.answer (packetAt (messages ℝ G (System.masterEvs G evs)) j)) =
        stampAt (messages ℝ G (System.masterEvs G evs)) j := fun _ _ _ => rfl
  have hsep : ∀ i ∈ js, ∀ j ∈ js, i < j → j ≤ i + 49 →
      stampAt (messages ℝ G (System.masterEvs G evs)) j ≠
        stampAt (messages ℝ G (System.masterEvs G evs)) i :=
    fun i _ j hj hij hw => stampAt_ne (h.sent j hj) hij hw
  have hzero : ∀ j ∈ js.head?, stampAt (messages ℝ G (System.masterEvs G evs)) j ≠
      (fun x : Node ℝ G => x.core.nodeCounter) ⟨Core.cMain ℝ G s.1.1 s.1.2, []⟩ := by
    intro j hj
    dsimp only
    rw [hstart.nodeCounter]
    exact stampAt_ne_zero (h.sent j (List.mem_of_mem_head? hj)) (h.first j hj)
  have hsuppress : ∀ j ∈ js, ∀ x : Node ℝ G,
      x.step (packetAt (messages ℝ G (System.masterEvs G evs)) j) = _ :=
    fun j hj x => ite_isNewError (h.sent j hj) Node.core
      (fun x j => x.answer (packetAt (messages ℝ G (System.masterEvs G evs)) j)) x
  rw [System.node_eq, ← node_errPackets, h.arrivals_eq, exec_map, exec_congr _ hsuppress]
  exact exec_suppress hseen hsep hzero h.inOrder

/-! ## Answers -/

/-- The state of a slave after its answer, the `k`-th it gives, to the `j`-th message. -/
structure Answers (evs : List MasterEvent) (j k : Nat) (c : Core ℝ G) : Prop where
  n_eq : c.n = (noise (draws G k)).1
  sender : ∃ m ∈ (sendersOf G evs)[j]?, m.n = (noise (draws G j)).1 ∧ c.ball.pos = m.ball.pos ∧
    c.errorX = quantize 10000 m.errorX ∧ c.errorY = quantize 10000 m.errorY

/-- A slave that has answered the messages `l`. -/
structure Answered (evs : List MasterEvent) (l : List Nat) (x : Node ℝ G) : Prop where
  gen_eq : x.core.gen = draws G l.length
  length_eq : x.upds.length = l.length
  upds : ∀ k u, x.upds[k]? = some u → ∃ j ∈ l[k]?, Answers evs j k u.2

/-- The next answer has the next noise, whatever message it is to. -/
theorem Answered.answer {evs : List MasterEvent} {l : List Nat} {x : Node ℝ G}
    (h : Answered evs l x) {j : Nat} (hj : j < (messages ℝ G evs).length) :
    Answered evs (l ++ [j]) (x.answer (packetAt (messages ℝ G evs) j)) := by
  obtain ⟨m, hm, hdec, hok⟩ := message_spec hj
  obtain ⟨hx, hy⟩ := hdec.errors
  have hnew : Answers evs j l.length (x.core.process (packetAt (messages ℝ G evs) j)) := by
    refine ⟨?_, m, hm, hok.noise_eq, ?_, hx, hy⟩
    · rw [process_n, h.gen_eq]
    · rw [process_pos, hdec.errPos, hok.pos_eq]
  refine ⟨?_, ?_, fun k u hu => ?_⟩
  · have hgen : (x.answer (packetAt (messages ℝ G evs) j)).core.gen =
        (noise (α := ℝ) x.core.gen).2 := rfl
    rw [hgen, h.gen_eq, ← draws_succ, List.length_append, List.length_singleton]
  · rw [Node.answer, List.length_append, List.length_append, h.length_eq]
    rfl
  · rw [Node.answer] at hu
    rcases lt_trichotomy k x.upds.length with hlt | rfl | hgt
    · rw [List.getElem?_append_left hlt] at hu
      obtain ⟨i, hi, hans⟩ := h.upds k u hu
      exact ⟨i, by rwa [List.getElem?_append_left (h.length_eq ▸ hlt)], hans⟩
    · rw [List.getElem?_concat_length] at hu
      obtain rfl := Option.some.inj hu
      refine ⟨j, ?_, ?_⟩
      · rw [h.length_eq, List.getElem?_concat_length]
        rfl
      · rw [h.length_eq]
        exact hnew
    · rw [List.getElem?_eq_none (by simp; omega)] at hu
      cases hu

theorem answered_exec (evs : List MasterEvent) (s : SlaveId) {l : List Nat}
    (hl : ∀ j ∈ l, j < (messages ℝ G evs).length) :
    Answered evs l (exec (fun x j => x.answer (packetAt (messages ℝ G evs) j))
      ⟨Core.cMain ℝ G s.1.1 s.1.2, []⟩ l) := by
  induction l using List.reverseRecOn with
  | nil =>
    have hstart := Core.cMain_slaveStart (G := G) (slaves_not_master s.1 s.2)
    exact ⟨hstart.gen, rfl, fun k u hu => by cases hu⟩
  | append_singleton l j ih =>
    rw [exec_concat]
    exact (ih fun i hi => hl i (List.mem_append_left _ hi)).answer (hl j (by simp))

/-! ## musl's generator -/

theorem draws_musl (k : Nat) : draws MuslRand k = (Prng.srand 0 : MuslRand).afterNoise k := rfl

/-- Two counts of noise give one generator when whole periods lie between them. -/
theorem draws_eq_iff (k d : Nat) : draws MuslRand k = draws MuslRand (k + d) ↔ 2 ^ 63 ∣ d := by
  have hiter : draws MuslRand (k + d) = MuslRand.next^[2 * d] (draws MuslRand k) := by
    rw [draws_musl, draws_musl, MuslRand.afterNoise_eq, MuslRand.afterNoise_eq,
      ← Function.iterate_add_apply, Nat.mul_add, Nat.add_comm]
  rw [eq_comm, hiter, MuslRand.iterate_next_eq_iff, pow_succ', Nat.mul_dvd_mul_iff_left two_pos]

/-- For every run of the parallel program and every slave that receives the
messages `js`: it answers each of them once, with the position and the errors
of the message; but the generator that its noise comes from is that of the
message only if whole periods of the generator have been lost before, hence not
after the loss of one message. -/
theorem losses_desynchronise (evs : List SystemEvent) (s : SlaveId) {js : List Nat}
    (h : LossyDelivery (G := MuslRand) s evs js) :
    let y : System ℝ MuslRand := exec System.step (System.start ℝ MuslRand) evs
    (y.upds s).length = js.dedup.length ∧ ∀ k u, (y.upds s)[k]? = some u →
      ∃ j ∈ js.dedup[k]?, Answers (System.masterEvs MuslRand evs) j k u.2 ∧
        (draws MuslRand k = draws MuslRand j ↔ 2 ^ 63 ∣ lost js j) := by
  intro y
  have hans := answered_exec (G := MuslRand) (System.masterEvs MuslRand evs) s (l := js.dedup)
    fun j hj => h.sent j (List.mem_dedup.mp hj)
  rw [← h.node_eq] at hans
  refine ⟨hans.length_eq, fun k u hu => ?_⟩
  obtain ⟨j, hj, hu'⟩ := hans.upds k u hu
  refine ⟨j, hj, hu', ?_⟩
  have hlost := h.inOrder.add_lost hj
  rw [← draws_eq_iff k, hlost]

/-- A slave that gets the second message but not the first. -/
theorem lossyDelivery_second (s : SlaveId) :
    LossyDelivery (G := G) s [.tick 1, .tick 2, .toSlave s 5] [1] := by
  have hok : (masterStep (masterStart ℝ G) (.tick 1)).tracker.Ok :=
    tracker_step _ _ masterStart_ok
  obtain ⟨rounds, hlen, hrounds, hsent⟩ := ((lived_start (G := G)).tick masterStart_ok).tick hok |>.log
  match rounds, hlen with
  | [p, q], _ =>
    obtain ⟨hp, hq⟩ : SentRound p ∧ SentRound q := by simpa using hrounds
    have hmotor : ¬motorsKey &&& 0xF0000000#32 = errorMsg := by decide
    have herr : errPackets (startDevices ++ [p.1, p.2, q.1, q.2]) = [p.2, q.2] := by
      have hstart : errPackets startDevices = [] := by decide
      rw [errPackets_append, hstart, List.nil_append, errPackets]
      simp [hp.motor, hq.motor, hp.error, hq.error, hmotor]
    have hmessages : messages ℝ G (System.masterEvs G [.tick 1, .tick 2, .toSlave s 5]) =
        [p.2, q.2] := (congrArg errPackets hsent).trans herr
    have harrivals : System.arrivals G s [.tick 1, .tick 2, .toSlave s 5] = [q.2] := by
      have hget : (masterStep (masterStep (masterStart ℝ G) (.tick 1)) (.tick 2)).sent[5]? =
          some q.2 := by
        rw [hsent]
        rfl
      simp only [System.arrivals, emitted, System.arrives, if_pos, List.nil_append, List.append_nil]
      exact congrArg Option.toList hget
    refine ⟨?_, ?_, by decide, by simp [InOrder]⟩
    · rw [harrivals, hmessages, errPackets]
      simp [hq.error, packetAt]
    · rw [hmessages]
      exact (by decide : ∀ j ∈ [1], j < 2)

/-- It answers it with the noise of the first. -/
theorem losses_desynchronise_second :
    let s : SlaveId := ⟨(0, 2), by decide⟩
    let y : System ℝ MuslRand :=
      exec System.step (System.start ℝ MuslRand) [.tick 1, .tick 2, .toSlave s 5]
    (y.upds s).length = 1 := by
  intro s y
  exact (losses_desynchronise _ s (lossyDelivery_second s)).1

end BallController.Parallel
