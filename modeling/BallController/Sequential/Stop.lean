import BallController.Following

/-! What the stop decision means. `move` compares two running means that the
calls of `updateError` maintain, with a speed that is computed at every fifth
tick and averaged at all of them. Along a run with consecutive ticks the means
are those of the four ticks before, and the run stops once and for all. -/

namespace BallController
open Lib Spin1Math

/-! ## Consecutive calls of `normalizeBallParams` -/

namespace BallParams

/-- The parameters after start-up. -/
structure Fresh (b : BallParams ℝ) : Prop where
  pos : b.pos = ⟨-1, 0⟩
  oldPos : b.oldPos = ⟨-1, 0⟩
  speed : b.speed = ⟨0, 0⟩
  posBuffer : b.posBuffer = fun _ => 1
  speedBuffer : b.speedBuffer = fun _ => 1
  totalSumPos : b.totalSumPos = 4.0
  totalSumSpeed : b.totalSumSpeed = 4.0
  avgPos : b.avgPos = 1
  avgSpeed : b.avgSpeed = 1
  avgIndex : b.avgIndex = 0

/-- The parameters after the calls of the ticks up to `k`, `b 0` before them. -/
structure Trail (b : Nat → BallParams ℝ) (k : Nat) : Prop where
  start : Fresh (b 0)
  next : ∀ j < k, ∃ x y, b (j + 1) = normalizeBallParams x y (j + 1) (b j)

/-- The norm of a vector after tick `k`, 1 before the first tick. -/
noncomputable def normAt (v : Nat → Vector2d ℝ) (k : Nat) : ℝ := if k = 0 then 1 else vNorm (v k)

/-- The speed after tick `k`: the displacement over the last five complete
ticks, scaled by 0.2. -/
noncomputable def speedAt (pos : Nat → Vector2d ℝ) (k : Nat) : Vector2d ℝ :=
  if k < 5 then ⟨0, 0⟩ else vMul 0.2 (vSub (pos (5 * (k / 5))) (pos (5 * (k / 5) - 5)))

/-- The mean over the ticks `k` to `k - 3`. -/
noncomputable def meanOf4 (v : Nat → ℝ) (k : Nat) : ℝ :=
  (v k + v (k - 1) + v (k - 2) + v (k - 3)) / 4.0

/-- One of the two running means: the ring and its total hold the window of `l`. -/
structure Averages (l : List ℝ) (buffer : CArray 4 ℝ) (total avg : ℝ) : Prop where
  buffer : buffer = ring 4 l
  total : total = (l.take 4).sum
  avg : avg = (l.take 4).sum / 4.0

theorem Averages.push {l : List ℝ} {buffer : CArray 4 ℝ} {total avg : ℝ}
    (h : Averages l buffer total avg) {i : Nat} (hi : i = l.length % 4) (v : ℝ) :
    Averages (v :: l) (buffer.write i v) (total - buffer.read i + v)
      ((total - buffer.read i + v) / 4.0) := by
  have htotal : total - buffer.read i + v = ((v :: l).take 4).sum := by
    rw [h.total, h.buffer, hi, ring_read (by decide), sum_take_cons (by decide)]
  refine ⟨?_, htotal, by rw [htotal]⟩
  rw [h.buffer, hi, ring_cons (by decide)]

theorem sum_past (v : Nat → ℝ) (k : Nat) : ((past 4 v k).take 4).sum / 4.0 = meanOf4 v k := by
  rw [take_past v k le_rfl, meanOf4]
  simp [List.range_succ, add_assoc]

/-- Both means, with the cursor that they share. -/
structure Averaged (b : Nat → BallParams ℝ) (k : Nat) : Prop where
  pos : Averages (past 4 (normAt fun j => (b j).pos) k) (b k).posBuffer (b k).totalSumPos
    (b k).avgPos
  speed : Averages (past 4 (normAt fun j => (b j).speed) k) (b k).speedBuffer (b k).totalSumSpeed
    (b k).avgSpeed
  index : (b k).avgIndex = k % 4

/-- A ring of ones, as `init_params_` fills them. -/
theorem averages_ones {v : Nat → ℝ} (hv : v 0 = 1) : Averages (past 4 v 0) (fun _ => 1) 4.0 1 := by
  have hl : past 4 v 0 = [1, 1, 1, 1] := by simp [past, hv, List.replicate]
  rw [hl]
  refine ⟨funext fun j => ?_, by norm_num, by norm_num⟩
  fin_cases j <;> rfl

theorem Fresh.averaged {b : Nat → BallParams ℝ} (h : Fresh (b 0)) : Averaged b 0 where
  pos := by
    rw [h.posBuffer, h.totalSumPos, h.avgPos]
    exact averages_ones rfl
  speed := by
    rw [h.speedBuffer, h.totalSumSpeed, h.avgSpeed]
    exact averages_ones rfl
  index := h.avgIndex

/-- What one call does to the means. -/
theorem normalizeBallParams_means (x y : Int) (t : Nat) (b : BallParams ℝ) :
    let b' := normalizeBallParams x y t b
    b'.posBuffer = b.posBuffer.write b.avgIndex (vNorm b'.pos) ∧
      b'.totalSumPos = b.totalSumPos - b.posBuffer.read b.avgIndex + vNorm b'.pos ∧
      b'.avgPos = (b.totalSumPos - b.posBuffer.read b.avgIndex + vNorm b'.pos) / 4.0 ∧
      b'.speedBuffer = b.speedBuffer.write b.avgIndex (vNorm b'.speed) ∧
      b'.totalSumSpeed = b.totalSumSpeed - b.speedBuffer.read b.avgIndex + vNorm b'.speed ∧
      b'.avgSpeed = (b.totalSumSpeed - b.speedBuffer.read b.avgIndex + vNorm b'.speed) / 4.0 := by
  intro b'
  simp only [b', normalizeBallParams, averageParams, computeSpeed]
  split <;> exact ⟨rfl, rfl, rfl, rfl, rfl, rfl⟩

theorem Averaged.next {b : Nat → BallParams ℝ} {k : Nat} (h : Averaged b k) {x y : Int} {t : Nat}
    (hb : b (k + 1) = normalizeBallParams x y t (b k)) : Averaged b (k + 1) := by
  obtain ⟨hp1, hp2, hp3, hs1, hs2, hs3⟩ := normalizeBallParams_means x y t (b k)
  rw [← hb] at hp1 hp2 hp3 hs1 hs2 hs3
  have hi : ∀ v : Nat → ℝ, (b k).avgIndex = (past 4 v k).length % 4 := by
    intro v
    rw [h.index, length_past, Nat.add_mod_right]
  refine ⟨?_, ?_, ?_⟩
  · rw [hp1, hp2, hp3]
    exact h.pos.push (hi _) _
  · rw [hs1, hs2, hs3]
    exact h.speed.push (hi _) _
  · rw [hb, normalizeBallParams_avgIndex, h.index]
    omega

theorem Trail.averaged {b : Nat → BallParams ℝ} {k : Nat} (h : Trail b k) : Averaged b k := by
  induction k with
  | zero => exact h.start.averaged
  | succ k ih =>
    obtain ⟨x, y, hb⟩ := h.next k (Nat.lt_succ_self k)
    exact (ih ⟨h.start, fun j hj => h.next j (hj.trans (Nat.lt_succ_self k))⟩).next hb

theorem Trail.avgPos {b : Nat → BallParams ℝ} {k : Nat} (h : Trail b k) :
    (b k).avgPos = meanOf4 (normAt fun j => (b j).pos) k :=
  h.averaged.pos.avg.trans (sum_past _ k)

theorem Trail.avgSpeed {b : Nat → BallParams ℝ} {k : Nat} (h : Trail b k) :
    (b k).avgSpeed = meanOf4 (normAt fun j => (b j).speed) k :=
  h.averaged.speed.avg.trans (sum_past _ k)

/-! ## The speed -/

theorem Trail.speed {b : Nat → BallParams ℝ} {k : Nat} (h : Trail b k) :
    (b k).speed = speedAt (fun j => (b j).pos) k ∧ (b k).oldPos = (b (5 * (k / 5))).pos := by
  induction k with
  | zero => exact ⟨h.start.speed, h.start.oldPos.trans h.start.pos.symm⟩
  | succ k ih =>
    obtain ⟨hspeed, hold⟩ := ih ⟨h.start, fun j hj => h.next j (hj.trans (Nat.lt_succ_self k))⟩
    obtain ⟨x, y, hb⟩ := h.next k (Nat.lt_succ_self k)
    have hpos : (b (k + 1)).pos = normalizedPos x y := by rw [hb, normalizeBallParams_pos]
    have hstep : (b (k + 1)).speed = (computeSpeed (k + 1) { b k with pos := normalizedPos x y }).speed ∧
        (b (k + 1)).oldPos =
          (computeSpeed (k + 1) { b k with pos := normalizedPos x y }).oldPos := by
      rw [hb]
      exact ⟨rfl, rfl⟩
    rw [hstep.1, hstep.2]
    by_cases ht : (k + 1) % 5 = 0
    · -- the tick completes a block of five
      obtain ⟨h1, h2⟩ := computeSpeed_of_dvd ht { b k with pos := normalizedPos x y }
      have hk : 5 * ((k + 1) / 5) = k + 1 := by omega
      have hk' : 5 * (k / 5) = k + 1 - 5 := by omega
      rw [h1, h2, speedAt, if_neg (by omega), hk, ← hk', hpos, hold]
      exact ⟨rfl, rfl⟩
    · have hk : (k + 1) / 5 = k / 5 := by omega
      have hlt : k + 1 < 5 ↔ k < 5 := by omega
      rw [computeSpeed_of_not_dvd ht]
      simp only [speedAt, hk, hlt]
      exact ⟨hspeed, hold⟩

end BallParams

namespace Sequential

variable {N : Nat} {G : Type} [Prng G]

/-! ## The start -/

namespace State

omit [Prng G] in
theorem initBuffers_loop (s : State N ℝ G) : forLoop 4 initBuffers s =
    { s with ball := { s.ball with posBuffer := fun _ => 1.0, speedBuffer := fun _ => 1.0 } } :=
  BallParams.fillBuffers_loop (fun b => { s with ball := b }) (fun _ _ => rfl) s.ball

theorem initNetwork_ball (noiseSeed : Uint) (s : State N ℝ G) : (s.initNetwork noiseSeed).ball =
    { s.ball with
      pos := ⟨-1.0, 0.0⟩, oldPos := ⟨-1.0, 0.0⟩, speed := ⟨0.0, 0.0⟩
      posBuffer := fun _ => 1.0, speedBuffer := fun _ => 1.0 } := by
  have hfold : ∀ (l : List (Uint × Uint)) (s : State N ℝ G),
      (l.foldl (fun s p => initMFM p.1 p.2 s) s).ball = s.ball := by
    intro l
    induction l with
    | nil => exact fun _ => rfl
    | cons p l ih => exact fun s => ih (initMFM p.1 p.2 s)
  have hweights : ∀ s : State N ℝ G, (forLoop N initWeights s).ball = s.ball :=
    forLoop_frame (f := fun s : State N ℝ G => s.ball) fun _ _ => rfl
  unfold initNetwork initParams
  rw [initBuffers_loop, hweights, hfold]

theorem cMain_fresh (noiseSeed : Uint) : BallParams.Fresh (cMain N ℝ G noiseSeed).ball := by
  have hball : (cMain N ℝ G noiseSeed).ball = _ := initNetwork_ball noiseSeed _
  rw [hball]
  constructor <;> norm_num [globals, BallParams.globals]

end State

/-! ## Runs with consecutive ticks -/

/-- The simulation times of the ticks. -/
def tickOf : Event → Option Nat
  | .camera _ _ => none
  | .tick t => some t

/-- The parameters that an event leaves, if it is a tick. -/
noncomputable def ticked (s : State N ℝ G) : Event → List (BallParams ℝ)
  | .camera _ _ => []
  | .tick t => [(step s (.tick t)).ball]

/-- The ball parameters at the start and after every tick of a run. -/
noncomputable def balls (N : Nat) (G : Type) [Prng G] (noiseSeed : Uint) (evs : List Event) :
    List (BallParams ℝ) :=
  (State.cMain N ℝ G noiseSeed).ball :: emitted step ticked (State.cMain N ℝ G noiseSeed) evs

/-- The ball parameters after tick `k`. -/
noncomputable def ballAfter (N : Nat) (G : Type) [Prng G] (noiseSeed : Uint) (evs : List Event)
    (k : Nat) : BallParams ℝ :=
  (balls N G noiseSeed evs).getD k (State.cMain N ℝ G noiseSeed).ball

theorem balls_concat (noiseSeed : Uint) (evs : List Event) (e : Event) :
    balls N G noiseSeed (evs ++ [e]) =
      balls N G noiseSeed evs ++ ticked (run N ℝ G noiseSeed evs) e := by
  rw [balls, emitted_concat, ← List.cons_append]
  rfl

/-- A tick after which the run goes on has been a learning one. -/
theorem State.update_of_unbalanced {t : Nat} {s : State N ℝ G}
    (h : (s.update t).state = .unbalanced) : s.state = .unbalanced ∧ s.update t = s.learn t := by
  unfold State.update at h ⊢
  by_cases hs : s.state = .unbalanced
  · simp only [hs, if_true] at h ⊢
    split at h
    · cases h
    · next hc => exact ⟨trivial, if_neg hc⟩
  · simp only [hs, if_false] at h
    split at h
    · cases h
    · exact absurd h hs

theorem State.update_of_balanced {t : Nat} {s : State N ℝ G} (hs : s.state = .unbalanced)
    (hm : (s.beforeMove.move t).2 = .balanced) :
    s.update t = { s.learn t with state := .saved, timerOn := false } := by
  have hb : (s.learn t).state = .balanced := (State.learn_state t s).trans hm
  simp only [State.update, hs, if_true, hb, true_or]

/-- The timer is on until the run stops. -/
def Live (s : State N ℝ G) : Prop := s.state = .unbalanced → s.timerOn = true

theorem live_step (s : State N ℝ G) (e : Event) (h : Live s) : Live (step s e) := by
  cases e with
  | camera key now =>
    simp only [step, State.cameraEvent]
    split <;> exact h
  | tick t =>
    simp only [step]
    split
    · intro hs
      obtain ⟨hu, he⟩ := State.update_of_unbalanced hs
      rw [he, State.learn_timerOn]
      exact h hu
    · exact h

theorem live_run (noiseSeed : Uint) (evs : List Event) : Live (run N ℝ G noiseSeed evs) :=
  exec_induction live_step (fun _ => State.cMain_timerOn noiseSeed) evs

theorem step_tick_of_unbalanced {s : State N ℝ G} (hl : Live s) {t : Nat}
    (h : (step s (.tick t)).state = .unbalanced) :
    s.state = .unbalanced ∧ step s (.tick t) = s.learn t := by
  by_cases ht : s.timerOn = true
  · rw [step, if_pos ht] at h ⊢
    exact State.update_of_unbalanced h
  · rw [step, if_neg ht] at h
    exact absurd (hl h) ht

/-- The state that `save_` leaves is final. -/
structure Stopped (s : State N ℝ G) : Prop where
  state : s.state = .saved
  timerOn : s.timerOn = false

theorem Stopped.step {s : State N ℝ G} (h : Stopped s) (e : Event) :
    Stopped (Sequential.step s e) := by
  cases e with
  | camera key now =>
    simp only [Sequential.step, State.cameraEvent]
    split <;> exact ⟨h.state, h.timerOn⟩
  | tick t =>
    simp only [Sequential.step, h.timerOn, Bool.false_eq_true, if_false]
    exact h

theorem camera_frame (s : State N ℝ G) (key : Uint) (now : Nat) :
    (step s (.camera key now)).state = s.state ∧ (step s (.camera key now)).ball = s.ball := by
  simp only [step, State.cameraEvent]
  split <;> exact ⟨rfl, rfl⟩

/-! ## The parameters along a run -/

/-- The parameters of a run are the last in its list. -/
theorem ball_mem_balls (noiseSeed : Uint) (evs : List Event) :
    (run N ℝ G noiseSeed evs).ball ∈ balls N G noiseSeed evs := by
  induction evs using List.reverseRecOn with
  | nil => exact List.mem_cons_self
  | append_singleton evs e ih =>
    have hrun : run N ℝ G noiseSeed (evs ++ [e]) = step (run N ℝ G noiseSeed evs) e :=
      exec_concat step _ _ _
    rw [balls_concat, hrun]
    cases e with
    | camera key now =>
      rw [(camera_frame _ key now).2]
      exact List.mem_append_left _ ih
    | tick t => exact List.mem_append_right _ List.mem_cons_self

/-- A longer run keeps the list. -/
theorem balls_subset_append (noiseSeed : Uint) (evs evs' : List Event) :
    balls N G noiseSeed evs ⊆ balls N G noiseSeed (evs ++ evs') := by
  induction evs' using List.reverseRecOn with
  | nil =>
    rw [List.append_nil]
    exact List.Subset.refl _
  | append_singleton evs' e ih =>
    rw [← List.append_assoc, balls_concat]
    exact List.subset_append_of_subset_left _ ih

/-- The parameters of a run that has not stopped, tick by tick. -/
structure TickLog (N : Nat) (G : Type) [Prng G] (noiseSeed : Uint) (evs : List Event) (k : Nat) :
    Prop where
  length : (balls N G noiseSeed evs).length = k + 1
  last : (run N ℝ G noiseSeed evs).ball = ballAfter N G noiseSeed evs k
  trail : BallParams.Trail (ballAfter N G noiseSeed evs) k

theorem TickLog.camera {noiseSeed : Uint} {evs : List Event} {k : Nat}
    (h : TickLog N G noiseSeed evs k) (key : Uint) (now : Nat) :
    TickLog N G noiseSeed (evs ++ [.camera key now]) k := by
  have hballs : balls N G noiseSeed (evs ++ [.camera key now]) = balls N G noiseSeed evs :=
    (balls_concat noiseSeed evs _).trans (List.append_nil _)
  have hafter : ballAfter N G noiseSeed (evs ++ [.camera key now]) =
      ballAfter N G noiseSeed evs := by
    funext j
    rw [ballAfter, hballs, ballAfter]
  refine ⟨by rw [hballs, h.length], ?_, by rw [hafter]; exact h.trail⟩
  rw [hafter, run, exec_concat, (camera_frame _ key now).2]
  exact h.last

theorem TickLog.tick {noiseSeed : Uint} {evs : List Event} {k : Nat}
    (h : TickLog N G noiseSeed evs k)
    (hball : (step (run N ℝ G noiseSeed evs) (.tick (k + 1))).ball =
      (run N ℝ G noiseSeed evs).ball.normalizeBallParams (run N ℝ G noiseSeed evs).tracker.xPos
        (run N ℝ G noiseSeed evs).tracker.yPos (k + 1)) :
    TickLog N G noiseSeed (evs ++ [.tick (k + 1)]) (k + 1) := by
  have hballs : balls N G noiseSeed (evs ++ [.tick (k + 1)]) = balls N G noiseSeed evs ++
      [(step (run N ℝ G noiseSeed evs) (.tick (k + 1))).ball] := balls_concat noiseSeed evs _
  have hold : ∀ j ≤ k, ballAfter N G noiseSeed (evs ++ [.tick (k + 1)]) j =
      ballAfter N G noiseSeed evs j := by
    intro j hj
    rw [ballAfter, hballs, List.getD_append _ _ _ _ (by rw [h.length]; omega), ballAfter]
  have hnew : ballAfter N G noiseSeed (evs ++ [.tick (k + 1)]) (k + 1) =
      (step (run N ℝ G noiseSeed evs) (.tick (k + 1))).ball := by
    rw [ballAfter, hballs, List.getD_append_right _ _ _ _ (by rw [h.length]), h.length, Nat.sub_self]
    rfl
  refine ⟨by rw [hballs, List.length_append, h.length, List.length_singleton], ?_, ?_, ?_⟩
  · rw [hnew, run, exec_concat]
    rfl
  · rw [hold 0 (Nat.zero_le k)]
    exact h.trail.start
  · intro j hj
    rcases Nat.lt_or_ge j k with hlt | hge
    · rw [hold (j + 1) hlt, hold j hlt.le]
      exact h.trail.next j hlt
    · obtain rfl : j = k := by omega
      rw [hnew, hold j le_rfl, hball, ← h.last]
      exact ⟨_, _, rfl⟩

/-- Along a run with the ticks 1 to `k` that has not stopped, the parameters are
those of `k` consecutive calls. -/
theorem tickLog (noiseSeed : Uint) {evs : List Event} {k : Nat}
    (hticks : evs.filterMap tickOf = List.range' 1 k)
    (hs : (run N ℝ G noiseSeed evs).state = .unbalanced) : TickLog N G noiseSeed evs k := by
  induction evs using List.reverseRecOn generalizing k with
  | nil =>
    cases k with
    | zero => exact ⟨rfl, rfl, State.cMain_fresh noiseSeed, fun j hj => absurd hj (Nat.not_lt_zero j)⟩
    | succ k => cases hticks
  | append_singleton evs e ih =>
    rw [run, exec_concat] at hs
    rw [List.filterMap_append] at hticks
    cases e with
    | camera key now =>
      rw [(camera_frame _ key now).1] at hs
      exact (ih ((List.append_nil _).symm.trans hticks) hs).camera key now
    | tick t =>
      cases k with
      | zero => exact absurd hticks (by simp [tickOf])
      | succ k =>
        rw [List.range'_1_concat] at hticks
        obtain ⟨hinit, ht⟩ := List.append_inj' hticks rfl
        obtain rfl : t = k + 1 := by
          have ht' := List.singleton_injective ht
          omega
        obtain ⟨hu, hstep⟩ := step_tick_of_unbalanced (live_run noiseSeed evs) hs
        refine (ih hinit hu).tick ?_
        rw [hstep]
        exact State.learn_ball _ _

end Sequential

/-! ## A ball at rest -/

namespace BallParams

theorem speedAt_of_rest {pos : Nat → Vector2d ℝ} {k : Nat} (hk : 10 ≤ k)
    (h : ∀ j, 0 < j → j ≤ k → pos j = ⟨0, 0⟩) : speedAt pos k = ⟨0, 0⟩ := by
  rw [speedAt, if_neg (by omega), h _ (by omega) (by omega), h _ (by omega) (by omega)]
  simp [vSub, vMul]

theorem meanOf4_lt_of_zero {v : Nat → Vector2d ℝ} {k : Nat} {c : ℝ} (hc : 0 < c) (hk : 4 ≤ k)
    (h : ∀ j, k - 4 < j → j ≤ k → v j = ⟨0, 0⟩) : meanOf4 (normAt v) k < c := by
  have hzero : ∀ j, k - 4 < j → j ≤ k → normAt v j = 0 := by
    intro j h0 hj
    rw [normAt, if_neg (by omega), h j h0 hj]
    simp [vNorm]
  rw [meanOf4, hzero k (by omega) le_rfl, hzero (k - 1) (by omega) (by omega),
    hzero (k - 2) (by omega) (by omega), hzero (k - 3) (by omega) (by omega)]
  norm_num
  exact hc

end BallParams

namespace Sequential

variable {N : Nat} {G : Type} [Prng G]

theorem filterMap_ticks (n : Nat) : (ticks n).filterMap tickOf = List.range' 1 n := by
  rw [ticks, List.filterMap_map]
  exact List.filterMap_some

theorem filterMap_looks_ticks (key : Uint) (n : Nat) :
    (looks key ++ ticks n).filterMap tickOf = List.range' 1 n := by
  rw [List.filterMap_append, filterMap_ticks]
  rfl

/-- While the ball is taken to be at `p`, the ticks find it there. -/
theorem ballAfter_pos_of_quiet {noiseSeed : Uint} {key : Uint} {p : Int × Int}
    (h : Quiet p (run N ℝ G noiseSeed (looks key))) {n : Nat} (hn : n ≤ 300) {j : Nat} (h0 : 0 < j)
    (hj : j ≤ n) : (ballAfter N G noiseSeed (looks key ++ ticks n) j).pos =
      BallParams.normalizedPos p.1 p.2 := by
  have hlog : TickLog N G noiseSeed (looks key ++ ticks n) n := by
    refine tickLog noiseSeed (filterMap_looks_ticks key n) ?_
    rw [run, exec_append]
    exact (h.ticks hn).state
  have hall : ∀ b ∈ emitted step ticked (run N ℝ G noiseSeed (looks key)) (ticks n),
      b.pos = BallParams.normalizedPos p.1 p.2 := by
    clear hlog hj
    induction n with
    | zero => exact List.forall_mem_nil _
    | succ n ih =>
      rw [ticks_succ, emitted_concat, List.forall_mem_append]
      refine ⟨ih (by omega), fun b hb => ?_⟩
      rw [List.mem_singleton.mp hb]
      exact ((h.ticks (by omega)).tick (by omega) hn).2
  have hballs : balls N G noiseSeed (looks key ++ ticks n) = (State.cMain N ℝ G noiseSeed).ball ::
      emitted step ticked (run N ℝ G noiseSeed (looks key)) (ticks n) := by
    rw [balls, emitted_append]
    rfl
  have hlen := hlog.length
  cases j with
  | zero => exact absurd h0 (lt_irrefl 0)
  | succ j =>
    rw [hballs, List.length_cons] at hlen
    rw [ballAfter, hballs, List.getD_cons_succ, List.getD_eq_getElem _ _ (by omega)]
    exact hall _ (List.getElem_mem _)

/-! ## The decision -/

/-- As long as a run with the ticks 1 to `k` has not stopped, the coming tick
`k + 1` reports the balanced state exactly when it comes after tick 300 and the
means of the two norms over the four ticks before it are small. The speed after
a tick is 0.2 times the displacement over the last complete block of five ticks.
When the tick does report it, its only packet is the level plate, and the run
is in `STATE_SAVED` from then on. -/
theorem stop_decision (noiseSeed : Uint) {evs : List Event} {k : Nat}
    (hticks : evs.filterMap tickOf = List.range' 1 k)
    (hs : (run N ℝ G noiseSeed evs).state = .unbalanced) :
    let s := run N ℝ G noiseSeed evs
    let pos := fun j => (ballAfter N G noiseSeed evs j).pos
    let speed := fun j => (ballAfter N G noiseSeed evs j).speed
    let balanced := (s.beforeMove.move (k + 1)).2 = .balanced
    (pos 0 = ⟨-1, 0⟩ ∧ s.ball.pos = pos k ∧ s.ball.speed = speed k ∧
        ∀ j ≤ k, speed j = BallParams.speedAt pos j) ∧
      (balanced ↔ k + 1 > 300 ∧ BallParams.meanOf4 (BallParams.normAt pos) k < 0.15 ∧
        BallParams.meanOf4 (BallParams.normAt speed) k < 0.03) ∧
      (balanced →
        (step s (.tick (k + 1))).sent = s.sent ++ [sendNormMotorCommand (0.0 : ℝ) 0.0] ∧
          ∀ evs', (exec step s (.tick (k + 1) :: evs')).state = .saved) := by
  intro s pos speed balanced
  have hlog := tickLog noiseSeed hticks hs
  have hball : s.ball = ballAfter N G noiseSeed evs k := hlog.last
  refine ⟨⟨hlog.trail.start.pos, congrArg BallParams.pos hball, congrArg BallParams.speed hball,
    fun j hj => ?_⟩, ?_, fun hb => ?_⟩
  · have htrail : BallParams.Trail (ballAfter N G noiseSeed evs) j :=
      ⟨hlog.trail.start, fun i hi => hlog.trail.next i (hi.trans_le hj)⟩
    exact htrail.speed.1
  · refine (State.move_snd (k + 1) s.beforeMove).trans ?_
    rw [State.Stops, State.beforeMove_ball, hball, hlog.trail.avgPos, hlog.trail.avgSpeed]
  · have htimer : s.timerOn = true := live_run noiseSeed evs hs
    have hstep : step s (.tick (k + 1)) =
        { s.learn (k + 1) with state := .saved, timerOn := false } := by
      rw [step, if_pos htimer, State.update_of_balanced hs hb]
    have hstop : s.beforeMove.Stops (k + 1) := (State.move_snd (k + 1) s.beforeMove).mp hb
    have hcommand : s.beforeMove.motorCommand (k + 1) = some (0.0, 0.0) := if_pos hstop
    refine ⟨?_, fun evs' => ?_⟩
    · have hsent := State.learn_sent (k + 1) s
      rw [hcommand] at hsent
      rw [hstep]
      exact hsent
    · have hstopped : Stopped (step s (.tick (k + 1))) := by
        rw [hstep]
        exact ⟨rfl, rfl⟩
      exact (exec_induction (fun _ e h => h.step e) hstopped evs').state

/-- Seen in the middle of the plate from the start, the ball counts as balanced
at tick 301: the means over the ticks 297 to 300 are 0. -/
theorem stop_decision_middle :
    let s := run nMFM ℝ MuslRand 0 (looks 0x48BC ++ ticks 300)
    s.state = .unbalanced ∧ (s.beforeMove.move 301).2 = .balanced ∧
      (step s (.tick 301)).sent = s.sent ++ [sendNormMotorCommand (0.0 : ℝ) 0.0] ∧
      (exec step s [.tick 301, .tick 302]).state = .saved := by
  intro s
  have hlook : Quiet (72, 60) (run nMFM ℝ MuslRand 0 (looks 0x48BC)) := quiet_looks 0 rfl
  have hs : s.state = .unbalanced := by
    have hquiet := hlook.ticks (show 300 ≤ 300 from le_rfl)
    exact (congrArg State.state (exec_append step _ _ _)).trans hquiet.state
  have hticks : (looks 0x48BC ++ ticks 300).filterMap tickOf = List.range' 1 300 :=
    filterMap_looks_ticks 0x48BC 300
  obtain ⟨⟨-, -, -, hspeed⟩, hiff, hstop⟩ := stop_decision (N := nMFM) (G := MuslRand) 0 hticks hs
  have hpos : ∀ j, 0 < j → j ≤ 300 →
      (ballAfter nMFM MuslRand 0 (looks 0x48BC ++ ticks 300) j).pos = ⟨0, 0⟩ := fun j h0 hj =>
    (ballAfter_pos_of_quiet hlook le_rfl h0 hj).trans BallParams.normalizedPos_middle
  have hrest : ∀ j, 10 ≤ j → j ≤ 300 →
      (ballAfter nMFM MuslRand 0 (looks 0x48BC ++ ticks 300) j).speed = ⟨0, 0⟩ := fun j h0 hj =>
    (hspeed j hj).trans (BallParams.speedAt_of_rest h0 fun i hi hij => hpos i hi (hij.trans hj))
  have hbalanced := hiff.mpr ⟨by decide,
    BallParams.meanOf4_lt_of_zero (by norm_num) (by decide) fun j hj => hpos j (by omega),
    BallParams.meanOf4_lt_of_zero (by norm_num) (by decide) fun j hj => hrest j (by omega)⟩
  exact ⟨hs, hbalanced, (hstop hbalanced).1, (hstop hbalanced).2 [.tick 302]⟩

end Sequential

end BallController
