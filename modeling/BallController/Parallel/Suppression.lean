import BallController.Lib.Delivery
import BallController.Parallel.Slave

/-! Duplicate suppression on the slaves. The counter of `send_err` runs through
1, ..., 49, 0, ... and a slave compares it with that of the last message it
processed. As long as the first message to arrive is one of the first 49 and
fewer than 49 messages in a row are lost, each message that arrives is processed
once, whatever the copies. -/

namespace BallController.Parallel
open Lib Spin1Math

variable {G : Type} [Prng G]

theorem exec_process_simCount (p : Nat → Packet) (c : Core ℝ G) (js : List Nat) :
    (exec (fun c j => c.process (p j)) c js).simCount = c.simCount + js.length := by
  induction js generalizing c with
  | nil => simp
  | cons j js ih =>
    rw [exec_cons, ih, process_simCount, List.length_cons]
    push_cast
    ring

/-- For every run of the master and every slave, when the messages `js` arrive in
sending order, the first of them among the first 49 and fewer than 49 missing
between two of them: each message that arrives is processed once and in order,
every further copy changes nothing, one UPD message goes out each time, and
`sim_count` counts them. -/
theorem duplicates_suppressed (evs : List MasterEvent) (s : SlaveId) {js : List Nat}
    (hsent : ∀ j ∈ js, j < (messages ℝ G evs).length) (hfirst : ∀ j ∈ js.head?, j < 49)
    (horder : InOrder 49 js) :
    let p := packetAt (messages ℝ G evs)
    let start := Core.cMain ℝ G s.1.1 s.1.2
    let deliver := exec (fun c j => c.eventNode (p j).key (p j).payload) start
    let processed := exec (fun c j => c.process (p j)) start
    (deliver js = processed js.dedup ∧ js.dedup.Pairwise (· < ·)) ∧
      (∀ l j l', js = l ++ j :: j :: l' → deliver (l ++ [j, j]) = deliver (l ++ [j])) ∧
      (deliver js).simCount = 1 + js.dedup.length ∧
      (deliver js).sent = emitted (fun c j => c.process (p j))
        (fun c j => [(c.process (p j)).sendUpdPacket]) start js.dedup := by
  intro p start deliver processed
  have hstart : Core.SlaveStart start := Core.cMain_slaveStart (slaves_not_master s.1 s.2)
  have hdeliver : ∀ l, (∀ j ∈ l, j < (messages ℝ G evs).length) → deliver l =
      exec (suppress (stampAt (messages ℝ G evs)) (fun c => c.nodeCounter)
        fun c j => c.process (p j)) start l :=
    fun l hl => exec_congr _ (fun j hj c => ite_isNewError (hl j hj) id
      (fun c j => c.process (packetAt (messages ℝ G evs) j)) c) start
  have hseen : ∀ (c : Core ℝ G), ∀ j ∈ js,
      (c.process (p j)).nodeCounter = stampAt (messages ℝ G evs) j := fun _ _ _ => rfl
  have hsep : ∀ i ∈ js, ∀ j ∈ js, i < j → j ≤ i + 49 →
      stampAt (messages ℝ G evs) j ≠ stampAt (messages ℝ G evs) i :=
    fun i _ j hj hij hw => stampAt_ne (hsent j hj) hij hw
  have hzero : ∀ j ∈ js.head?, stampAt (messages ℝ G evs) j ≠ start.nodeCounter := by
    intro j hj
    rw [hstart.nodeCounter]
    exact stampAt_ne_zero (hsent j (List.mem_of_mem_head? hj)) (hfirst j hj)
  have honce : deliver js = processed js.dedup := by
    rw [hdeliver js hsent]
    exact exec_suppress hseen hsep hzero horder
  refine ⟨⟨honce, horder.dedup_sorted⟩, fun l j l' hjs => ?_, ?_, ?_⟩
  · have hl : ∀ i ∈ l ++ [j, j], i < (messages ℝ G evs).length := by
      intro i hi
      refine hsent i ?_
      rw [hjs]
      simp only [List.mem_append, List.mem_cons] at hi ⊢
      tauto
    have hcopy : l ++ [j, j] = (l ++ [j]) ++ [j] := by simp
    have hl' : ∀ i ∈ l ++ [j], i < (messages ℝ G evs).length := by
      intro i hi
      refine hl i ?_
      rw [hcopy]
      exact List.mem_append_left _ hi
    rw [hdeliver _ hl, hdeliver _ hl', hcopy, exec_concat]
    refine suppress_of_seen ?_
    rw [exec_concat]
    exact seen_suppress (fun _ => rfl) _
  · rw [honce, exec_process_simCount, hstart.simCount]
  · have hlog : (processed js.dedup).sent = start.sent ++ emitted (fun c j => c.process (p j))
        (fun c j => [(c.process (p j)).sendUpdPacket]) start js.dedup :=
      log_exec (fun c : Core ℝ G => c.sent) (fun c j => process_sent c (p j)) start js.dedup
    rw [honce, hlog, hstart.sent, List.nil_append]

/-- Three copies of the first message are processed as one. -/
theorem duplicates_suppressed_three :
    let p := packetAt (messages ℝ MuslRand [.tick 1])
    let start := Core.cMain ℝ MuslRand 0 2
    exec (fun c j => c.eventNode (p j).key (p j).payload) start [0, 0, 0] = start.process (p 0) := by
  intro p start
  have hsent : ∀ j ∈ [0, 0, 0], j < (messages ℝ MuslRand [.tick 1]).length := by
    rw [messages_first]
    exact (by decide : ∀ j ∈ [0, 0, 0], j < 1)
  have horder : InOrder 49 [0, 0, 0] := by
    simp [InOrder]
  exact (duplicates_suppressed [.tick 1] ⟨(0, 2), by decide⟩ hsent (by decide) horder).1.1

end BallController.Parallel
