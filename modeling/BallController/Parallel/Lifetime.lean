import BallController.Parallel.Senders

/-! How long the master lives. Its stop condition is commented out, so that the
ball has no say: with consecutive ticks the master sends a motor packet and an
ERROR packet at every tick up to `SAVE_STEP`, and nothing after. -/

namespace BallController.Parallel
open Lib Spin1Math

variable {G : Type} [Prng G]

/-- The simulation times of the ticks. -/
def masterTickOf : MasterEvent → Option Nat
  | .packet _ _ _ => none
  | .tick t => some t

structure Running (c : Core ℝ G) : Prop where
  timerOn : c.timerOn = true
  state : c.state = .unbalanced

structure Saved (c : Core ℝ G) : Prop where
  timerOn : c.timerOn = false
  state : c.state = .saved

/-- The packets of a tick: a command to the motors, then an ERROR message. -/
structure SentRound (p : Packet × Packet) : Prop where
  motor : p.1.key = motorsKey
  error : p.2.key &&& 0xF0000000#32 = errorMsg

/-! ## One event -/

theorem status_packet (c : Core ℝ G) (key payload : Uint) (now : Nat) :
    ((masterStep c (.packet key payload now)).timerOn, (masterStep c (.packet key payload now)).state) =
      (c.timerOn, c.state) := by
  simp only [masterStep, Core.eventMaster]
  split_ifs <;> rfl

theorem Running.tick {c : Core ℝ G} (h : Running c) {t : Nat} (ht : t % saveStep ≠ 0) :
    Running (masterStep c (.tick t)) := by
  rw [masterStep, if_pos h.timerOn, Core.update, if_pos h.state]
  rw [if_neg]
  · exact ⟨h.timerOn, rfl⟩
  · rintro (hb | ⟨-, hz⟩)
    · cases hb
    · exact ht hz

/-- The only end of a run. -/
theorem Running.save {c : Core ℝ G} (h : Running c) {t : Nat} (ht : t % saveStep = 0) :
    Saved (masterStep c (.tick t)) := by
  rw [masterStep, if_pos h.timerOn, Core.update, if_pos h.state]
  rw [if_pos (Or.inr ⟨fun hs => (by cases hs), ht⟩)]
  exact ⟨rfl, rfl⟩

theorem Saved.tick {c : Core ℝ G} (h : Saved c) (t : Nat) : masterStep c (.tick t) = c := by
  rw [masterStep, h.timerOn]
  rfl

theorem Running.sends {c : Core ℝ G} (h : Running c) (hc : c.tracker.Ok) (t : Nat) :
    ∃ p, SentRound p ∧ sends c (.tick t) = [p.1, p.2] :=
  ⟨(_, _), ⟨rfl, Core.sendErr_tag (errFits_beforeSend hc t)⟩, if_pos ⟨h.timerOn, h.state⟩⟩

/-! ## Runs -/

/-- The master after the ticks 1 to `k`. -/
structure Lived (k : Nat) (c : Core ℝ G) : Prop where
  running : k < saveStep → Running c
  saved : saveStep ≤ k → Saved c
  log : ∃ rounds : List (Packet × Packet), rounds.length = min k saveStep ∧
    (∀ p ∈ rounds, SentRound p) ∧ c.sent = startDevices ++ rounds.flatMap fun p => [p.1, p.2]

theorem Lived.packet {k : Nat} {c : Core ℝ G} (h : Lived k c) (key payload : Uint) (now : Nat) :
    Lived k (masterStep c (.packet key payload now)) := by
  obtain ⟨ht, hs⟩ := Prod.ext_iff.mp (status_packet c key payload now)
  refine ⟨fun hk => ⟨ht.trans (h.running hk).timerOn, hs.trans (h.running hk).state⟩,
    fun hk => ⟨ht.trans (h.saved hk).timerOn, hs.trans (h.saved hk).state⟩, ?_⟩
  rw [sent_step, Parallel.sends, List.append_nil]
  exact h.log

theorem Lived.tick {k : Nat} {c : Core ℝ G} (h : Lived k c) (hc : c.tracker.Ok) :
    Lived (k + 1) (masterStep c (.tick (k + 1))) := by
  obtain ⟨rounds, hlen, hrounds, hsent⟩ := h.log
  rcases Nat.lt_or_ge k saveStep with hk | hk
  · have hrun := h.running hk
    obtain ⟨p, hp, hsends⟩ := hrun.sends hc (k + 1)
    refine ⟨fun hk' => hrun.tick ?_, fun hk' => hrun.save ?_, rounds ++ [p], ?_, ?_, ?_⟩
    · rw [Nat.mod_eq_of_lt hk']
      omega
    · have he : k + 1 = saveStep := by omega
      rw [he, Nat.mod_self]
    · rw [List.length_append, List.length_singleton, hlen]
      omega
    · intro q hq
      rcases List.mem_append.mp hq with hq | hq
      · exact hrounds q hq
      · exact (List.mem_singleton.mp hq) ▸ hp
    · rw [sent_step, hsends, hsent, List.flatMap_append, List.append_assoc]
      rfl
  · have hsaved := h.saved hk
    rw [hsaved.tick]
    exact ⟨fun hk' => absurd hk' (by omega), fun _ => hsaved, rounds, by omega, hrounds, hsent⟩

theorem lived_start : Lived 0 (masterStart ℝ G) where
  running _ := ⟨masterStart_unbalanced.1, masterStart_unbalanced.2⟩
  saved hk := absurd hk (by decide)
  log := by
    refine ⟨[], rfl, List.forall_mem_nil _, ?_⟩
    rw [masterStart_sent, List.flatMap_nil, List.append_nil]

/-- Whatever packets reach the master between the ticks 1 to `k`: up to
`SAVE_STEP` it is in `STATE_UNBALANCED` and has sent, after the packets of
`startDevices`, one command and one ERROR message a tick; from that tick on it
is in `STATE_SAVED` and sends nothing. -/
theorem master_lifetime {evs : List MasterEvent} {k : Nat}
    (hticks : evs.filterMap masterTickOf = List.range' 1 k) : Lived k (masterRun ℝ G evs) := by
  refine (exec_counted (P := fun k (c : Core ℝ G) => Lived k c ∧ c.tracker.Ok) ?_ ?_
    ⟨lived_start, masterStart_ok⟩ hticks).1
  · intro k c e he h
    cases e with
    | packet key payload now => exact ⟨h.1.packet key payload now, tracker_step c _ h.2⟩
    | tick t => cases he
  · intro k c e he h
    cases e with
    | packet key payload now => cases he
    | tick t =>
      obtain rfl := Option.some.inj he
      exact ⟨h.1.tick h.2, tracker_step c _ h.2⟩

/-- One tick past `SAVE_STEP`. -/
theorem master_lifetime_past :
    let c := masterRun ℝ MuslRand ((List.range' 1 (saveStep + 1)).map MasterEvent.tick)
    Lived (saveStep + 1) c ∧ Saved c := by
  intro c
  have hticks : ((List.range' 1 (saveStep + 1)).map MasterEvent.tick).filterMap masterTickOf =
      List.range' 1 (saveStep + 1) := by
    rw [List.filterMap_map]
    exact List.filterMap_some
  have hlived : Lived (saveStep + 1) c := master_lifetime hticks
  exact ⟨hlived, hlived.saved (Nat.le_succ saveStep)⟩

end BallController.Parallel
