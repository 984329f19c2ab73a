import BallController.Sequential.Save

/-! How long a run lasts. With consecutive ticks a run goes on for 300 ticks at
least and stops by `SAVE_STEP` at the latest. Until then a tick sends at most one
command; if the run stops before `SAVE_STEP`, it leaves the plate level. -/

namespace BallController.Sequential
open Lib Spin1Math

variable {N : Nat} {G : Type} [Prng G]

structure Running (s : State N ℝ G) : Prop where
  timerOn : s.timerOn = true
  state : s.state = .unbalanced

/-- The state after the ticks 1 to `k`. -/
structure Lived (k : Nat) (s : State N ℝ G) : Prop where
  phase : (k < saveStep ∧ Running s) ∨ (300 < k ∧ Stopped s ∧
    (k < saveStep → s.sent.getLast? = some (sendNormMotorCommand (0.0 : ℝ) 0.0)))
  log : ∃ commands : List (ℝ × ℝ), commands.length ≤ min k saveStep ∧
    s.sent = startDevices ++ commands.map fun c => sendNormMotorCommand c.1 c.2

/-! ## One event -/

theorem camera_phase (s : State N ℝ G) (key : Uint) (now : Nat) :
    ((step s (.camera key now)).timerOn, (step s (.camera key now)).state,
      (step s (.camera key now)).sent) = (s.timerOn, s.state, s.sent) := by
  simp only [step, State.cameraEvent]
  split <;> rfl

theorem Lived.camera {k : Nat} {s : State N ℝ G} (h : Lived k s) (key : Uint) (now : Nat) :
    Lived k (step s (.camera key now)) := by
  obtain ⟨ht, hrest⟩ := Prod.ext_iff.mp (camera_phase s key now)
  obtain ⟨hs, hsent⟩ := Prod.ext_iff.mp hrest
  dsimp only at ht hs hsent
  refine ⟨?_, ?_⟩
  · rw [hsent]
    rcases h.phase with ⟨hk, hr⟩ | ⟨hk, hr, hl⟩
    · exact Or.inl ⟨hk, ht.trans hr.timerOn, hs.trans hr.state⟩
    · exact Or.inr ⟨hk, ⟨hs.trans hr.state, ht.trans hr.timerOn⟩, hl⟩
  · rw [hsent]
    exact h.log

theorem Running.update {s : State N ℝ G} (h : Running s) (t : Nat) :
    step s (.tick t) = s.update t ∧ s.update t =
      if (s.learn t).state = .balanced ∨ t % saveStep = 0 then
        { s.learn t with state := .saved, timerOn := false } else s.learn t := by
  rw [step, if_pos h.timerOn, State.update, if_pos h.state]
  exact ⟨rfl, rfl⟩

theorem learn_balanced_iff (t : Nat) (s : State N ℝ G) :
    (s.learn t).state = .balanced ↔ s.beforeMove.Stops t := by
  rw [State.learn_state]
  exact State.move_snd t s.beforeMove

/-- A tick of a running controller that does not stop. -/
theorem Running.go {s : State N ℝ G} (h : Running s) {t : Nat} (hb : ¬s.beforeMove.Stops t)
    (ht : t % saveStep ≠ 0) : step s (.tick t) = s.learn t ∧ Running (s.learn t) := by
  obtain ⟨hstep, hupdate⟩ := h.update t
  have hstate : (s.learn t).state = .unbalanced := by
    rw [State.learn_state]
    exact State.move_snd_of_not_stops hb
  refine ⟨hstep.trans (hupdate.trans (if_neg ?_)), ?_, hstate⟩
  · rw [learn_balanced_iff]
    exact not_or.mpr ⟨hb, ht⟩
  · rw [State.learn_timerOn, h.timerOn]

/-- A tick that stops. -/
theorem Running.stop {s : State N ℝ G} (h : Running s) {t : Nat}
    (hb : s.beforeMove.Stops t ∨ t % saveStep = 0) :
    step s (.tick t) = { s.learn t with state := .saved, timerOn := false } := by
  obtain ⟨hstep, hupdate⟩ := h.update t
  rw [← learn_balanced_iff] at hb
  exact hstep.trans (hupdate.trans (if_pos hb))

/-- One command at most is added. -/
theorem log_tick {k : Nat} {s : State N ℝ G} (hk : k < saveStep) (hlog : ∃ commands : List (ℝ × ℝ),
    commands.length ≤ min k saveStep ∧
      s.sent = startDevices ++ commands.map fun c => sendNormMotorCommand c.1 c.2) (t : Nat) :
    ∃ commands : List (ℝ × ℝ), commands.length ≤ min (k + 1) saveStep ∧
      (s.learn t).sent = startDevices ++ commands.map fun c => sendNormMotorCommand c.1 c.2 := by
  obtain ⟨commands, hlen, hsent⟩ := hlog
  have hone : (s.beforeMove.motorCommand t).toList.length ≤ 1 := by
    cases s.beforeMove.motorCommand t <;> simp
  refine ⟨commands ++ (s.beforeMove.motorCommand t).toList, ?_, ?_⟩
  · rw [List.length_append]
    omega
  · rw [State.learn_sent, hsent, List.map_append, List.append_assoc]

theorem Lived.tick {k : Nat} {s : State N ℝ G} (h : Lived k s) :
    Lived (k + 1) (step s (.tick (k + 1))) := by
  rcases h.phase with ⟨hk, hr⟩ | ⟨hk, hr, hl⟩
  · have hlog := log_tick hk h.log (k + 1)
    by_cases hb : s.beforeMove.Stops (k + 1)
    · rw [hr.stop (Or.inl hb)]
      refine ⟨Or.inr ⟨hb.1, ⟨rfl, rfl⟩, fun _ => ?_⟩, hlog⟩
      have hcommand : s.beforeMove.motorCommand (k + 1) = some (0.0, 0.0) := if_pos hb
      have hsent := State.learn_sent (k + 1) s
      rw [hcommand] at hsent
      exact (congrArg List.getLast? hsent).trans (List.getLast?_concat ..)
    · by_cases ht : (k + 1) % saveStep = 0
      · rw [hr.stop (Or.inr ht)]
        have hle : saveStep ≤ k + 1 := Nat.le_of_dvd (Nat.succ_pos k) (Nat.dvd_of_mod_eq_zero ht)
        have h300 : 300 < saveStep := by decide
        exact ⟨Or.inr ⟨by omega, ⟨rfl, rfl⟩, fun hlt => absurd hlt (by omega)⟩, hlog⟩
      · obtain ⟨hstep, hrun⟩ := hr.go hb ht
        have hne : k + 1 ≠ saveStep := fun he => ht (he ▸ Nat.mod_self _)
        rw [hstep]
        exact ⟨Or.inl ⟨by omega, hrun⟩, hlog⟩
  · have hsame : step s (.tick (k + 1)) = s := by
      rw [step, hr.timerOn]
      rfl
    obtain ⟨commands, hlen, hsent⟩ := h.log
    rw [hsame]
    exact ⟨Or.inr ⟨by omega, hr, fun hlt => hl (by omega)⟩, commands, by omega, hsent⟩

theorem lived_start (noiseSeed : Uint) : Lived 0 (State.cMain N ℝ G noiseSeed) where
  phase := Or.inl ⟨by decide, State.cMain_timerOn noiseSeed, State.cMain_state noiseSeed⟩
  log := by
    refine ⟨[], Nat.zero_le _, ?_⟩
    rw [State.cMain_sent, List.map_nil, List.append_nil]

/-- A stopped controller sends nothing and keeps its weights. -/
theorem stopped_frame {s : State N ℝ G} (h : s.timerOn = false) (evs : List Event) :
    (exec step s evs).timerOn = false ∧ (exec step s evs).sent = s.sent ∧
      (exec step s evs).save = s.save := by
  refine exec_induction (P := fun t : State N ℝ G =>
    t.timerOn = false ∧ t.sent = s.sent ∧ t.save = s.save) ?_ ⟨h, rfl, rfl⟩ evs
  rintro t e ⟨hoff, hsent, hsave⟩
  cases e with
  | camera key now =>
    rw [step, State.cameraEvent]
    split <;> exact ⟨hoff, hsent, hsave⟩
  | tick n =>
    rw [step, hoff]
    exact ⟨hoff, hsent, hsave⟩

/-- For every run with the ticks 1 to `k` and any camera samples: the controller
runs at least up to tick 300 and stops by `SAVE_STEP`; it has sent one command
at most per tick before it stopped, the last of them levelling the plate unless
it ran into `SAVE_STEP`; and once it has stopped, no event makes it send or
print anything more. -/
theorem run_lifetime (noiseSeed : Uint) {evs : List Event} {k : Nat}
    (hticks : evs.filterMap tickOf = List.range' 1 k) :
    Lived k (run N ℝ G noiseSeed evs) ∧ ∀ evs', (run N ℝ G noiseSeed evs).timerOn = false →
      (run N ℝ G noiseSeed (evs ++ evs')).sent = (run N ℝ G noiseSeed evs).sent ∧
        output N ℝ G noiseSeed (evs ++ evs') = output N ℝ G noiseSeed evs := by
  constructor
  · refine exec_counted (P := fun k (s : State N ℝ G) => Lived k s) ?_ ?_ (lived_start noiseSeed)
      hticks
    · intro k s e he h
      cases e with
      | camera key now => exact h.camera key now
      | tick t => cases he
    · intro k s e he h
      cases e with
      | camera key now => cases he
      | tick t =>
        obtain rfl := Option.some.inj he
        exact h.tick
  · intro evs' hoff
    have hrun : run N ℝ G noiseSeed (evs ++ evs') = exec step (run N ℝ G noiseSeed evs) evs' :=
      exec_append step _ evs evs'
    obtain ⟨hoff', hsent, hsave⟩ := stopped_frame hoff evs'
    refine ⟨hrun ▸ hsent, ?_⟩
    rw [output_eq, output_eq, hrun, hoff, hoff', hsave]

/-- Without a camera sample the controller is off by `SAVE_STEP`, and one more
tick sends nothing. -/
theorem run_lifetime_saveStep :
    Lived saveStep (run nMFM ℝ MuslRand 0 (ticks saveStep)) ∧
      (run nMFM ℝ MuslRand 0 (ticks saveStep)).timerOn = false ∧
      (run nMFM ℝ MuslRand 0 (ticks saveStep ++ [.tick (saveStep + 1)])).sent =
        (run nMFM ℝ MuslRand 0 (ticks saveStep)).sent := by
  obtain ⟨hlived, hend⟩ := run_lifetime (N := nMFM) (G := MuslRand) 0 (filterMap_ticks saveStep)
  have hoff : (run nMFM ℝ MuslRand 0 (ticks saveStep)).timerOn = false := by
    rcases hlived.phase with ⟨hlt, -⟩ | ⟨-, hstopped, -⟩
    · exact absurd hlt (lt_irrefl saveStep)
    · exact hstopped.timerOn
  exact ⟨hlived, hoff, (hend [.tick (saveStep + 1)] hoff).1⟩

end BallController.Sequential
