import BallController.Parallel.Master

/-! The calls of `send_err` in a run of the master: which counter, noise and
position each of them has, and what its packet says. -/

namespace BallController.Parallel
open Lib Spin1Math

section Defs

variable {α G : Type} [Field α] [LinearOrder α] [FloorRing α] [Libm α] [Prng G]

/-- The packets of `send_err` in a run of the master, in sending order. -/
def messages (α G : Type) [Field α] [LinearOrder α] [FloorRing α] [Libm α] [Prng G]
    (evs : List MasterEvent) : List Packet := errPackets (masterRun α G evs).sent

/-- The globals that only `send_err` and `noise` write. -/
def Core.talk (c : Core α G) : Uint × G := (c.counter, c.gen)

end Defs

/-- The `j`-th packet, from 0. -/
def packetAt (ps : List Packet) (j : Nat) : Packet := ps.getD j ⟨0, 0⟩

/-- The counter field of the `j`-th packet. -/
def stampAt (ps : List Packet) (j : Nat) : Uint := ((packetAt ps j).key >>> 20) &&& 0x000000FF#32

/-- The state of `rand` after `k` calls of `noise`, from `srand(0)`. -/
noncomputable def draws (G : Type) [Prng G] (k : Nat) : G :=
  (fun g => (noise (α := ℝ) g).2)^[k] (Prng.srand 0)

variable {G : Type} [Prng G]

theorem draws_succ (k : Nat) : draws G (k + 1) = (noise (α := ℝ) (draws G k)).2 :=
  Function.iterate_succ_apply' _ k _

omit [Prng G] in
theorem nextCounter_toNat {c : Core ℝ G} (h : c.counter.toNat < 50) :
    c.nextCounter.toNat = (c.counter.toNat + 1) % 50 := by
  rw [Core.nextCounter, BitVec.toNat_umod, BitVec.toNat_add]
  show (c.counter.toNat + 1) % 2 ^ 32 % 50 = _
  rw [Nat.mod_eq_of_lt (a := c.counter.toNat + 1) (by omega)]

/-- An event calls neither `noise` nor `send_err`, or each of them once. -/
theorem senders_cases (c : Core ℝ G) (e : MasterEvent) :
    (senders c e = [] ∧ (masterStep c e).talk = c.talk) ∨
      ∃ t m, m = (c.beforeSend t).sendErr (toUint c.tracker.xPos) (toUint c.tracker.yPos) ∧
        senders c e = [m] ∧ (masterStep c e).talk = m.talk := by
  cases e with
  | packet key payload now =>
    refine Or.inl ⟨rfl, ?_⟩
    simp only [masterStep, Core.eventMaster]
    split_ifs <;> rfl
  | tick t =>
    by_cases h : c.timerOn = true ∧ c.state = .unbalanced
    · refine Or.inr ⟨t, _, rfl, if_pos h, ?_⟩
      simp only [masterStep, if_pos h.1]
      rw [Core.update_frame Core.talk (fun _ => rfl), if_pos h.2]
    · refine Or.inl ⟨if_neg h, ?_⟩
      simp only [masterStep]
      split
      · next ht =>
        rw [Core.update_frame Core.talk (fun _ => rfl), if_neg fun hs => h ⟨ht, hs⟩]
      · rfl

/-- The calls of `send_err` in a run: the state after each. -/
noncomputable def sendersOf (G : Type) [Prng G] (evs : List MasterEvent) : List (Core ℝ G) :=
  emitted masterStep senders (masterStart ℝ G) evs

/-- What the `j`-th call, from 0, finds in the globals. -/
structure SenderOk (j : Nat) (m : Core ℝ G) : Prop where
  counter : m.counter.toNat = (j + 1) % 50
  noise_eq : m.n = (noise (draws G j)).1
  pos_eq : m.ball.pos = BallParams.normalizedPos m.tracker.xPos m.tracker.yPos
  error_le : |m.errorX| ≤ 1 ∧ |m.errorY| ≤ 1

/-- After `k` calls. -/
structure TalkOk (k : Nat) (c : Core ℝ G) : Prop where
  counter : c.counter.toNat = k % 50
  gen_eq : c.gen = draws G k

theorem TalkOk.of_talk {k : Nat} {c d : Core ℝ G} (h : TalkOk k c) (hd : d.talk = c.talk) :
    TalkOk k d := by
  obtain ⟨hcount, hgen⟩ := Prod.ext_iff.mp hd
  exact ⟨(congrArg BitVec.toNat hcount).trans h.counter, hgen.trans h.gen_eq⟩

/-- The step lemma: the next call has the next counter and the next noise. -/
theorem TalkOk.sendErr {k : Nat} {c : Core ℝ G} (h : TalkOk k c) (hc : c.tracker.Ok) (t : Nat) :
    let m := (c.beforeSend t).sendErr (toUint c.tracker.xPos) (toUint c.tracker.yPos)
    SenderOk k m ∧ TalkOk (k + 1) m := by
  intro m
  have hlt : c.counter.toNat < 50 := by
    have hcount := h.counter
    omega
  have hnext : m.counter.toNat = (k + 1) % 50 := by
    have hm : m.counter = c.nextCounter := rfl
    rw [hm, nextCounter_toNat hlt, h.counter, Nat.mod_add_mod]
  have hnoise : m.n = (noise c.gen).1 := rfl
  have hgen : m.gen = (noise (α := ℝ) c.gen).2 := rfl
  have hpos : m.ball.pos = (c.ball.normalizeBallParams (toUint c.tracker.xPos).toInt
      (toUint c.tracker.yPos).toInt t).pos := rfl
  have htracker : m.tracker = c.tracker := rfl
  obtain ⟨hx, hy⟩ := Prod.mk.inj (toInt_tracked hc)
  refine ⟨⟨hnext, ?_, ?_, Core.beforeSend_error_mem t c⟩, hnext, ?_⟩
  · rw [hnoise, h.gen_eq]
  · rw [hpos, BallParams.normalizeBallParams_pos, hx, hy, htracker]
  · rw [hgen, h.gen_eq, draws_succ]

theorem sendersOf_ok (evs : List MasterEvent) :
    TalkOk (sendersOf G evs).length (masterRun ℝ G evs) ∧
      ∀ j, ∀ m ∈ (sendersOf G evs)[j]?, SenderOk j m := by
  induction evs using List.reverseRecOn with
  | nil => exact ⟨⟨rfl, rfl⟩, fun j m hm => by cases hm⟩
  | append_singleton evs e ih =>
    obtain ⟨htalk, hall⟩ := ih
    have hlog : sendersOf G (evs ++ [e]) = sendersOf G evs ++ senders (masterRun ℝ G evs) e :=
      emitted_concat senders _ evs e
    have hrun : masterRun ℝ G (evs ++ [e]) = masterStep (masterRun ℝ G evs) e :=
      exec_concat masterStep _ evs e
    have htracker : (masterRun ℝ G evs).tracker.Ok := exec_induction tracker_step masterStart_ok evs
    rw [hlog, hrun]
    rcases senders_cases (masterRun ℝ G evs) e with ⟨hs, hc⟩ | ⟨t, m, hm, hs, hc⟩
    · rw [hs, List.append_nil]
      exact ⟨htalk.of_talk hc, hall⟩
    · obtain ⟨hsend, hnext⟩ := htalk.sendErr htracker t
      rw [← hm] at hsend hnext
      rw [hs, List.length_append, List.length_singleton]
      refine ⟨hnext.of_talk hc, fun j m' hj => ?_⟩
      rcases lt_trichotomy j (sendersOf G evs).length with hlt | heq | hgt
      · rw [List.getElem?_append_left hlt] at hj
        exact hall j m' hj
      · subst heq
        rw [List.getElem?_concat_length] at hj
        obtain rfl := Option.some.inj hj
        exact hsend
      · rw [List.getElem?_eq_none (by simp; omega)] at hj
        cases hj

/-! ## What the packets say -/

/-- The `j`-th packet comes from the `j`-th call. -/
theorem message_spec {evs : List MasterEvent} {j : Nat} (hj : j < (messages ℝ G evs).length) :
    ∃ m ∈ (sendersOf G evs)[j]?, ErrDecodes m (packetAt (messages ℝ G evs) j) ∧ SenderOk j m := by
  have hrun := errPackets_run (G := G) evs
  have hlen : (sendersOf G evs).length = (messages ℝ G evs).length := hrun.length_eq
  have hj' : j < (sendersOf G evs).length := by omega
  have hget : (sendersOf G evs)[j] ∈ (sendersOf G evs)[j]? := List.getElem?_eq_getElem hj'
  refine ⟨(sendersOf G evs)[j], hget, ?_, (sendersOf_ok evs).2 j _ hget⟩
  have hp : packetAt (messages ℝ G evs) j = (messages ℝ G evs)[j] := List.getD_eq_getElem _ _ hj
  rw [hp]
  exact hrun.get hj' hj

/-- `rec_err` reads the truncated errors of the sender. -/
theorem ErrDecodes.errors {m : Core ℝ G} {p : Packet} (h : ErrDecodes m p) :
    Core.errX p.key p.payload = quantize 10000 m.errorX ∧
      Core.errY p.key p.payload = quantize 10000 m.errorY :=
  ⟨congrArg (fun c => c.errorX) (h.recErr m 0), congrArg (fun c => c.errorY) (h.recErr m 0)⟩

theorem stampAt_toNat {evs : List MasterEvent} {j : Nat} (hj : j < (messages ℝ G evs).length) :
    (stampAt (messages ℝ G evs) j).toNat = (j + 1) % 50 := by
  obtain ⟨m, -, hm, hok⟩ := message_spec hj
  rw [stampAt, hm.counter, hok.counter]

/-- The counters of messages up to 49 apart differ, ... -/
theorem stampAt_ne {evs : List MasterEvent} {i j : Nat} (hj : j < (messages ℝ G evs).length)
    (hij : i < j) (hw : j ≤ i + 49) :
    stampAt (messages ℝ G evs) j ≠ stampAt (messages ℝ G evs) i := by
  intro he
  have hn := congrArg BitVec.toNat he
  rw [stampAt_toNat hj, stampAt_toNat (by omega)] at hn
  omega

/-- ... and those of the first 49 messages are not the one a slave starts with. -/
theorem stampAt_ne_zero {evs : List MasterEvent} {j : Nat} (hj : j < (messages ℝ G evs).length)
    (hlt : j < 49) : stampAt (messages ℝ G evs) j ≠ 0 := by
  intro he
  have hz : (0 : Uint).toNat = 0 := rfl
  have hn := congrArg BitVec.toNat he
  rw [stampAt_toNat hj, hz] at hn
  omega

theorem isNewError_packetAt {evs : List MasterEvent} {j : Nat}
    (hj : j < (messages ℝ G evs).length) (c : Core ℝ G) :
    Core.IsNewError (packetAt (messages ℝ G evs) j).key c ↔
      stampAt (messages ℝ G evs) j ≠ c.nodeCounter := by
  obtain ⟨m, -, hm, -⟩ := message_spec hj
  rw [hm.isNewError c, stampAt, hm.counter]

/-! ## The first message -/

theorem masterStart_unbalanced :
    (masterStart ℝ G).timerOn = true ∧ (masterStart ℝ G).state = .unbalanced := ⟨rfl, rfl⟩

theorem messages_first (t : Nat) : messages ℝ G [.tick t] =
    [((masterStart ℝ G).beforeSend t).sendErrPacket (toUint 0) (toUint 0)] := by
  have hstart : errPackets (masterStart ℝ G).sent = [] := by
    rw [masterStart_sent]
    decide
  rw [messages, masterRun, exec_cons, exec_nil, errPackets_step, hstart, List.nil_append,
    errPackets_sends_tick masterStart_ok t masterStart_unbalanced]
  rfl

end BallController.Parallel
