import BallController.Placement
import BallController.Sequential.Motors
import BallController.Sequential.Rates
import BallController.Sequential.Stop

/-! The population code of the sequential program has no dead zone: from the
first tick on some population fires along each axis, wherever the ball is. -/

namespace BallController.Sequential
open Lib Spin1Math

variable {G : Type} [Prng G]

/-- The slaves are populations of the sequential program, under the same numbers. -/
theorem populationId_slot :
    ∀ p ∈ Parallel.slaves, Parallel.slot p < 63 ∧ populationId (Parallel.slot p) = p :=
  forall_mem_of_all (by decide)

/-- The centres of the sequential program are among others those of the slaves. -/
theorem State.exists_center (noiseSeed : Uint) {p : Uint × Uint} (hp : p ∈ Parallel.slaves) :
    ∃ i, (cMain nMFM ℝ G noiseSeed).center i = centerOf p.1 p.2 := by
  obtain ⟨hlt, hid⟩ := populationId_slot p hp
  refine ⟨⟨Parallel.slot p, by simp only [nMFM]; omega⟩, ?_⟩
  rw [cMain_center, if_pos hlt, hid]

theorem State.exists_near_x (noiseSeed : Uint) {q : ℝ} (hq : |q| ≤ 1) :
    ∃ i, |q - (cMain nMFM ℝ G noiseSeed).centerX i| ≤ 7 / 100 := by
  obtain ⟨p, hp, hd⟩ := exists_slave_near_x hq
  obtain ⟨i, hi⟩ := exists_center (G := G) noiseSeed hp
  exact ⟨i, by rwa [centerX, hi]⟩

theorem State.exists_near_y (noiseSeed : Uint) {q : ℝ} (hq : |q| ≤ 1) :
    ∃ i, |q - (cMain nMFM ℝ G noiseSeed).centerY i| ≤ 7 / 100 := by
  obtain ⟨p, hp, hd⟩ := exists_slave_near_y hq
  obtain ⟨i, hi⟩ := exists_center (G := G) noiseSeed hp
  exact ⟨i, by rwa [centerY, hi]⟩

/-- Some population fires at two fifths of its maximum, along each axis. -/
structure Fires (s : State nMFM ℝ G) : Prop where
  x : ∃ i, 2 / 5 ≤ s.fX i
  y : ∃ j, 2 / 5 ≤ s.fY j

/-- What every state of a run has that the firing of the next tick depends on. -/
structure Placed (noiseSeed : Uint) (s : State nMFM ℝ G) : Prop where
  center : s.center = (State.cMain nMFM ℝ G noiseSeed).center
  pos : PosOk s
  rates : s.UnitRates
  live : Live s

theorem placed_run (noiseSeed : Uint) (evs : List Event) :
    Placed noiseSeed (run nMFM ℝ G noiseSeed evs) where
  center := by
    refine exec_induction
      (P := fun s : State nMFM ℝ G => s.center = (State.cMain nMFM ℝ G noiseSeed).center)
      (fun s e h => ?_) rfl evs
    cases e with
    | camera key now =>
      simp only [step, State.cameraEvent]
      split <;> exact h
    | tick t =>
      simp only [step]
      split
      · rw [State.update_center, h]
      · exact h
  pos := exec_induction posOk_step (posOk_cMain noiseSeed) evs
  rates := unitRates_run noiseSeed evs
  live := live_run noiseSeed evs

/-- A tick that learns fires where the ball is. -/
theorem Placed.learn {noiseSeed : Uint} {s : State nMFM ℝ G} (h : Placed noiseSeed s) (t : Nat) :
    Fires (s.learn t) := by
  obtain ⟨hfX, hfY⟩ := State.learn_rates t s
  obtain ⟨-, hx, hy⟩ := State.mfmAt_eq s s.ball.pos
  obtain ⟨i, hi⟩ := State.exists_near_x (G := G) noiseSeed h.pos.1
  obtain ⟨j, hj⟩ := State.exists_near_y (G := G) noiseSeed h.pos.2
  have hci : s.centerX i = (State.cMain nMFM ℝ G noiseSeed).centerX i :=
    congrArg Vector2d.x (congrFun h.center i)
  have hcj : s.centerY j = (State.cMain nMFM ℝ G noiseSeed).centerY j :=
    congrArg Vector2d.y (congrFun h.center j)
  rw [← hci] at hi
  rw [← hcj] at hj
  refine ⟨⟨i, ?_⟩, j, ?_⟩
  · have hrate : (s.mfmAt s.ball.pos).fX i = _ := congrFun (congrArg Axis.rate hx) i
    rw [hfX, hrate]
    exact le_rate_of_near (h.rates.fX i).1 hi
  · have hrate : (s.mfmAt s.ball.pos).fY j = _ := congrFun (congrArg Axis.rate hy) j
    rw [hfY, hrate]
    exact le_rate_of_near (h.rates.fY j).1 hj

/-- A tick changes the rates only when it learns. -/
theorem fires_update {noiseSeed : Uint} {s : State nMFM ℝ G} (h : Placed noiseSeed s)
    (hs : s.state = .unbalanced ∨ Fires s) (t : Nat) : Fires (s.update t) := by
  have hupdate : Fires (s.update t) = Fires (if s.state = .unbalanced then s.learn t else s) :=
    State.update_frame Fires (fun s => propext ⟨fun h => ⟨h.x, h.y⟩, fun h => ⟨h.x, h.y⟩⟩) t s
  rw [hupdate]
  split
  · exact h.learn t
  · next hne => exact hs.resolve_left hne

/-- The state is as at the start, or something has fired. -/
theorem unbalanced_or_fires (noiseSeed : Uint) (evs : List Event) :
    (run nMFM ℝ G noiseSeed evs).state = .unbalanced ∨ Fires (run nMFM ℝ G noiseSeed evs) := by
  induction evs using List.reverseRecOn with
  | nil => exact Or.inl (State.cMain_state noiseSeed)
  | append_singleton evs e ih =>
    have hrun : run nMFM ℝ G noiseSeed (evs ++ [e]) = step (run nMFM ℝ G noiseSeed evs) e :=
      exec_concat step _ _ _
    rw [hrun]
    cases e with
    | camera key now =>
      simp only [step, State.cameraEvent]
      split
      · exact ih.imp id fun h => ⟨h.x, h.y⟩
      · exact ih
    | tick t =>
      simp only [step]
      split
      · exact Or.inr (fires_update (placed_run noiseSeed evs) ih t)
      · exact ih

/-- In every run, from its first tick on, at least one population fires at two
fifths of its maximum along each axis. -/
theorem some_population_fires (noiseSeed : Uint) {evs : List Event} {t : Nat}
    (ht : Event.tick t ∈ evs) : Fires (run nMFM ℝ G noiseSeed evs) := by
  induction evs using List.reverseRecOn with
  | nil => cases ht
  | append_singleton evs e ih =>
    have hplaced := placed_run (G := G) noiseSeed evs
    have hs := unbalanced_or_fires (G := G) noiseSeed evs
    have hrun : run nMFM ℝ G noiseSeed (evs ++ [e]) = step (run nMFM ℝ G noiseSeed evs) e :=
      exec_concat step _ _ _
    rw [hrun]
    cases e with
    | camera key now =>
      have hmem : Event.tick t ∈ evs := by simpa using ht
      obtain ⟨hx, hy⟩ := ih hmem
      simp only [step, State.cameraEvent]
      split <;> exact ⟨hx, hy⟩
    | tick t' =>
      simp only [step]
      split
      · exact fires_update hplaced hs t'
      · next hoff => exact hs.resolve_left fun hu => hoff (hplaced.live hu)

/-- The first tick, before any look of the camera. -/
theorem some_population_fires_first : Fires (run nMFM ℝ MuslRand 0 [.tick 1]) :=
  some_population_fires 0 (t := 1) (by simp)

end BallController.Sequential
