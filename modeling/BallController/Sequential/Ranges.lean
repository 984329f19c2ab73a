import BallController.Following
import BallController.Sequential.Stop

/-! The ranges of position, speed and reward. The position is clamped onto the
unit disc, but the speed is a fifth of the displacement since the last refresh,
which may cross the whole disc: its terms stay below 0.4, and below 0.3 exactly
as long as no refresh finds the ball more than 1.5 away from the reference. -/

namespace BallController
open Lib Spin1Math

namespace BallParams

/-- Position in the unit disc, speed terms in `[0, c]`, rewards in `[-c, 1]`. -/
structure Ranged (c : ℝ) (b : BallParams ℝ) : Prop where
  pos : vNorm b.pos ≤ 1
  spXTerm : 0 ≤ b.spXTerm ∧ b.spXTerm ≤ c
  spYTerm : 0 ≤ b.spYTerm ∧ b.spYTerm ≤ c
  rX : -c ≤ b.rX ∧ b.rX ≤ 1
  rY : -c ≤ b.rY ∧ b.rY ≤ 1

/-- If the call at time `t` refreshes the speed, the position that it computes
lies within `d` of the reference `old_pos_` along both axes. -/
def RefreshFits (d : ℝ) (xPos yPos : Int) (t : Nat) (b : BallParams ℝ) : Prop :=
  t % speedAveragerStep = 0 →
    |(normalizedPos xPos yPos).x - b.oldPos.x| ≤ d ∧ |(normalizedPos xPos yPos).y - b.oldPos.y| ≤ d

/-- What the calls keep. -/
structure SpeedOk (c : ℝ) (b : BallParams ℝ) : Prop where
  pos : vNorm b.pos ≤ 1
  oldPos : vNorm b.oldPos ≤ 1
  spXTerm : 0 ≤ b.spXTerm ∧ b.spXTerm ≤ c
  spYTerm : 0 ≤ b.spYTerm ∧ b.spYTerm ≤ c

theorem reward_mem {c u sp : ℝ} (hc : c ≤ 1) (hu : |u| ≤ 1) (hsp : 0 ≤ sp ∧ sp ≤ c) :
    -c ≤ range (1.0 - fAbs u - sp) (-1.0) 1.0 ∧ range (1.0 - fAbs u - sp) (-1.0) 1.0 ≤ 1 := by
  have h1 : (1.0 : ℝ) = 1 := by norm_num
  have hu0 := abs_nonneg u
  rw [fAbs_eq_abs, h1, range_of_mem (by linarith) (by linarith)]
  constructor <;> linarith

/-- At the edge of the disc and 2 away from the reference the reward is that of
the speed term alone. -/
theorem reward_edge {u sp : ℝ} (hu : |u| = 1) (hsp : sp = 0.4) :
    range (1.0 - fAbs u - sp) (-1.0) 1.0 = -0.4 := by
  rw [fAbs_eq_abs, hu, hsp, range_of_mem (by norm_num) (by norm_num)]
  norm_num

theorem SpeedOk.ranged {c : ℝ} {b : BallParams ℝ} (h : SpeedOk c b) (hc : c ≤ 1) : Ranged c b where
  pos := h.pos
  spXTerm := h.spXTerm
  spYTerm := h.spYTerm
  rX := reward_mem hc ((abs_x_le_vNorm b.pos).trans h.pos) h.spXTerm
  rY := reward_mem hc ((abs_y_le_vNorm b.pos).trans h.pos) h.spYTerm

/-- What a call makes of the terms and of the reference. -/
theorem normalizeBallParams_refresh (x y : Int) (t : Nat) (b : BallParams ℝ) :
    let b' := normalizeBallParams x y t b
    (t % speedAveragerStep = 0 ∧ b'.spXTerm = 0.2 * |(normalizedPos x y).x - b.oldPos.x| ∧
        b'.spYTerm = 0.2 * |(normalizedPos x y).y - b.oldPos.y| ∧ b'.oldPos = normalizedPos x y) ∨
      (t % speedAveragerStep ≠ 0 ∧ b'.spXTerm = b.spXTerm ∧ b'.spYTerm = b.spYTerm ∧
        b'.oldPos = b.oldPos) := by
  intro b'
  obtain ⟨hx, hy, hold⟩ := normalizeBallParams_speed x y t b
  rw [hx, hy, hold]
  by_cases ht : t % speedAveragerStep = 0
  · obtain ⟨hsx, hsy⟩ := computeSpeed_terms ht { b with pos := normalizedPos x y }
    exact Or.inl ⟨ht, hsx, hsy, (computeSpeed_of_dvd ht _).2⟩
  · rw [computeSpeed_of_not_dvd ht]
    exact Or.inr ⟨ht, rfl, rfl, rfl⟩

/-- The step lemma. -/
theorem SpeedOk.next {c : ℝ} {b : BallParams ℝ} (h : SpeedOk c b) {x y : Int} {t : Nat}
    (hf : RefreshFits (5 * c) x y t b) : SpeedOk c (normalizeBallParams x y t b) := by
  have hdisc := vNorm_normalizedPos_le x y
  rcases normalizeBallParams_refresh x y t b with ⟨ht, hx, hy, hold⟩ | ⟨_, hx, hy, hold⟩
  · obtain ⟨hfx, hfy⟩ := hf ht
    refine ⟨by rwa [normalizeBallParams_pos], by rwa [hold], ?_, ?_⟩
    · rw [hx]
      exact ⟨by positivity, by norm_num at hfx ⊢; linarith⟩
    · rw [hy]
      exact ⟨by positivity, by norm_num at hfy ⊢; linarith⟩
  · exact ⟨by rwa [normalizeBallParams_pos], hold ▸ h.oldPos, hx ▸ h.spXTerm, hy ▸ h.spYTerm⟩

/-- Its converse: terms in range tell of a small displacement. -/
theorem refreshFits_of_ranged {c : ℝ} {b : BallParams ℝ} {x y : Int} {t : Nat}
    (h : Ranged c (normalizeBallParams x y t b)) : RefreshFits (5 * c) x y t b := by
  intro ht
  rcases normalizeBallParams_refresh x y t b with ⟨_, hx, hy, _⟩ | ⟨hne, _⟩
  · have hsx := h.spXTerm.2
    have hsy := h.spYTerm.2
    rw [hx] at hsx
    rw [hy] at hsy
    norm_num at hsx hsy
    constructor <;> linarith
  · exact absurd ht hne

/-- Points of the disc are at most 2 apart along an axis. -/
theorem SpeedOk.refreshFits {c : ℝ} {b : BallParams ℝ} (h : SpeedOk c b) (x y : Int) (t : Nat) :
    RefreshFits 2 x y t b := by
  intro _
  obtain ⟨hx, hy⟩ := abs_normalizedPos_le x y
  have hox := (abs_x_le_vNorm b.oldPos).trans h.oldPos
  have hoy := (abs_y_le_vNorm b.oldPos).trans h.oldPos
  have hdx := abs_sub (normalizedPos x y).x b.oldPos.x
  have hdy := abs_sub (normalizedPos x y).y b.oldPos.y
  constructor <;> linarith

/-- The middles of three sides of the plate. -/
theorem normalizedPos_edges : (normalizedPos 19 60 : Vector2d ℝ) = ⟨1, 0⟩ ∧
    (normalizedPos 72 5 : Vector2d ℝ) = ⟨0, -1⟩ ∧ (normalizedPos 72 115 : Vector2d ℝ) = ⟨0, 1⟩ := by
  refine ⟨normalizedPos_of_mem ?_ ?_ ?_, normalizedPos_of_mem ?_ ?_ ?_,
    normalizedPos_of_mem ?_ ?_ ?_⟩
  all_goals norm_num [vNorm, aX, bX, aY, bY, ballPosXMax, ballPosXMin, ballPosXCenter, ballPosYMax,
    ballPosYMin, ballPosYCenter]

end BallParams

namespace Sequential

variable {N : Nat} {G : Type} [Prng G]

/-- A tick that learns and refreshes the speed finds the ball within `d` of the
reference along both axes. -/
def SpeedFits (d : ℝ) (s : State N ℝ G) : Event → Prop
  | .camera _ _ => True
  | .tick t => s.timerOn = true ∧ s.state = .unbalanced →
      s.ball.RefreshFits d s.tracker.xPos s.tracker.yPos t

theorem tick_ball (s : State N ℝ G) (t : Nat) : (step s (.tick t)).ball =
    if s.timerOn = true ∧ s.state = .unbalanced then
      s.ball.normalizeBallParams s.tracker.xPos s.tracker.yPos t
    else s.ball := by
  simp only [step]
  by_cases ht : s.timerOn = true
  · rw [if_pos ht, State.update_frame (fun s => s.ball) (fun _ => rfl)]
    by_cases hs : s.state = .unbalanced
    · rw [if_pos hs, if_pos ⟨ht, hs⟩, State.learn_ball]
    · rw [if_neg hs, if_neg fun h => hs h.2]
  · rw [if_neg ht, if_neg fun h => ht h.1]

theorem speedOk_step {c : ℝ} (s : State N ℝ G) (e : Event) (h : s.ball.SpeedOk c)
    (hf : SpeedFits (5 * c) s e) : (step s e).ball.SpeedOk c := by
  cases e with
  | camera key now =>
    rw [(camera_frame s key now).2]
    exact h
  | tick t =>
    rw [tick_ball]
    split
    · next hon => exact h.next (hf hon)
    · exact h

theorem ticked_ranged_iff {c : ℝ} (hc : c ≤ 1) (s : State N ℝ G) (e : Event)
    (h : s.ball.SpeedOk c) : (∀ b ∈ ticked s e, b.Ranged c) ↔ SpeedFits (5 * c) s e := by
  cases e with
  | camera key now => simp [ticked, SpeedFits]
  | tick t =>
    rw [ticked, List.forall_mem_singleton, tick_ball, SpeedFits]
    split
    · next hon =>
      exact ⟨fun hr _ => BallParams.refreshFits_of_ranged hr, fun hf => (h.next (hf hon)).ranged hc⟩
    · next hoff => exact ⟨fun _ hon => absurd hon hoff, fun _ => h.ranged hc⟩

theorem speedOk_cMain {c : ℝ} (hc : 0 ≤ c) (noiseSeed : Uint) :
    (State.cMain N ℝ G noiseSeed).ball.SpeedOk c := by
  have hfresh := State.cMain_fresh (N := N) (G := G) noiseSeed
  have hterms : (State.cMain N ℝ G noiseSeed).ball.spXTerm = 0 ∧
      (State.cMain N ℝ G noiseSeed).ball.spYTerm = 0 := by
    have hball : (State.cMain N ℝ G noiseSeed).ball = _ := State.initNetwork_ball noiseSeed _
    rw [hball]
    constructor <;> norm_num [State.globals, BallParams.globals]
  have hnorm : vNorm (⟨-1, 0⟩ : Vector2d ℝ) ≤ 1 := by
    simp [vNorm]
  refine ⟨?_, ?_, ?_, ?_⟩
  · rw [hfresh.pos]
    exact hnorm
  · rw [hfresh.oldPos]
    exact hnorm
  · rw [hterms.1]
    exact ⟨le_rfl, hc⟩
  · rw [hterms.2]
    exact ⟨le_rfl, hc⟩

/-- For any speed bound `c` up to 1: every tick of a run leaves the parameters
in range exactly when no refresh of the speed finds the ball more than `5 c`
from the reference. -/
theorem ranged_iff {c : ℝ} (h0 : 0 ≤ c) (h1 : c ≤ 1) (noiseSeed : Uint) (evs : List Event) :
    (∀ b ∈ balls N G noiseSeed evs, b.Ranged c) ↔
      Along step (SpeedFits (5 * c)) (State.cMain N ℝ G noiseSeed) evs := by
  have hstart := speedOk_cMain (N := N) (G := G) h0 noiseSeed
  rw [balls, List.forall_mem_cons, forall_emitted, along_congr (I := fun s => s.ball.SpeedOk c)
    speedOk_step (ticked_ranged_iff h1) hstart]
  exact and_iff_right (hstart.ranged h1)

/-- In every run, whatever the camera sees. -/
theorem ranged_always (noiseSeed : Uint) (evs : List Event) :
    ∀ b ∈ balls N G noiseSeed evs, b.Ranged 0.4 := by
  have h04 : (5 : ℝ) * 0.4 = 2 := by norm_num
  refine (ranged_iff (by norm_num) (by norm_num) noiseSeed evs).mpr ?_
  rw [h04]
  have hs : ∀ (s : State N ℝ G) e, s.ball.SpeedOk 0.4 → SpeedFits 2 s e := by
    intro s e h
    cases e with
    | camera key now => trivial
    | tick t => exact fun _ => h.refreshFits _ _ t
  refine along_of_invariant (I := fun s => s.ball.SpeedOk 0.4) (fun s e h => ?_) hs
    (speedOk_cMain (by norm_num) noiseSeed) evs
  refine speedOk_step s e h ?_
  rw [h04]
  exact hs s e h

/-- The first five ticks, without a sample. -/
theorem ranged_always_ticks :
    (run nMFM ℝ MuslRand 0 (ticks 5)).ball ∈ balls nMFM MuslRand 0 (ticks 5) ∧
      (run nMFM ℝ MuslRand 0 (ticks 5)).ball.Ranged 0.4 :=
  ⟨ball_mem_balls 0 (ticks 5), ranged_always 0 (ticks 5) _ (ball_mem_balls 0 (ticks 5))⟩

/-- In every run of the sequential program the ranges of the design document
hold at the start and after every tick, the speed terms in `[0, 0.3]` and the
rewards in `[-0.3, 1]`, if and only if every refresh of the speed finds the ball
within 1.5 of the reference `old_pos_` along both axes. -/
theorem ranges_iff_displacements_small (noiseSeed : Uint) (evs : List Event) :
    (∀ b ∈ balls N G noiseSeed evs, b.Ranged 0.3) ↔
      Along step (SpeedFits 1.5) (State.cMain N ℝ G noiseSeed) evs := by
  have h15 : (1.5 : ℝ) = 5 * 0.3 := by norm_num
  rw [h15]
  exact ranged_iff (by norm_num) (by norm_num) noiseSeed evs

/-! ## The bound is reached

A ball that the camera sees at one edge of the plate, then at another, with all
five ticks of a block in between. -/

/-- The ticks `5 m + 1` to `5 m + 5`. -/
def block (m : Nat) : List Event := (List.range' (5 * m + 1) 5).map Event.tick

/-- The run `evs` has not stopped, its window holds only samples at `p`, and the
reference of the speed is `v`. -/
structure Seen (N : Nat) (G : Type) [Prng G] (noiseSeed : Uint) (evs : List Event) (p : Int × Int)
    (v : Vector2d ℝ) : Prop where
  on : (run N ℝ G noiseSeed evs).timerOn = true ∧ (run N ℝ G noiseSeed evs).state = .unbalanced
  history : ∃ h, history sampleOf evs = List.replicate 16 p ++ h
  oldPos : (run N ℝ G noiseSeed evs).ball.oldPos = v

section Seen

variable {noiseSeed : Uint} {evs : List Event} {p : Int × Int} {v : Vector2d ℝ}

theorem Seen.tracker (h : Seen N G noiseSeed evs p v) :
    (run N ℝ G noiseSeed evs).tracker.xPos = p.1 ∧ (run N ℝ G noiseSeed evs).tracker.yPos = p.2 := by
  obtain ⟨l, hl⟩ := h.history
  have ht := tracking.tracks (State.cMain_tracker (N := N) (G := G) noiseSeed) evs
  have hpos := ht.pos
  rw [hl, History.pos_replicate] at hpos
  exact Prod.ext_iff.mp hpos

/-- A tick of the block. -/
theorem Seen.tick (h : Seen N G noiseSeed evs p v) {t : Nat} (h0 : 0 < t) (h1 : t ≤ 300) :
    (run N ℝ G noiseSeed (evs ++ [.tick t])).ball =
        (run N ℝ G noiseSeed evs).ball.normalizeBallParams p.1 p.2 t ∧
      Seen N G noiseSeed (evs ++ [.tick t]) p
        ((run N ℝ G noiseSeed evs).ball.normalizeBallParams p.1 p.2 t).oldPos := by
  obtain ⟨hx, hy⟩ := h.tracker
  obtain ⟨hupdate, hstate⟩ := State.update_early h.on.2 h0 h1
  have hrun : run N ℝ G noiseSeed (evs ++ [.tick t]) = (run N ℝ G noiseSeed evs).learn t := by
    rw [run, exec_concat]
    exact (if_pos h.on.1).trans hupdate
  have hball : (run N ℝ G noiseSeed (evs ++ [.tick t])).ball =
      (run N ℝ G noiseSeed evs).ball.normalizeBallParams p.1 p.2 t := by
    rw [hrun, State.learn_ball, hx, hy]
  refine ⟨hball, ⟨?_, ?_⟩, ?_, by rw [hball]⟩
  · rw [hrun, State.learn_timerOn, h.on.1]
  · rw [hrun, hstate]
  · rw [Tracking.history_concat]
    exact h.history

/-- Off the refresh the reference stays. -/
theorem Seen.wait (h : Seen N G noiseSeed evs p v) {t : Nat} (h0 : 0 < t) (h1 : t ≤ 300)
    (ht : t % speedAveragerStep ≠ 0) : Seen N G noiseSeed (evs ++ [.tick t]) p v := by
  obtain ⟨-, hs⟩ := h.tick h0 h1
  rcases BallParams.normalizeBallParams_refresh p.1 p.2 t (run N ℝ G noiseSeed evs).ball with
    ⟨hmod, _⟩ | ⟨_, _, _, hold⟩
  · exact absurd hmod ht
  · rw [hold, h.oldPos] at hs
    exact hs

/-- At the refresh the speed is that from the old reference to the ball, the new
reference. -/
theorem Seen.refresh (h : Seen N G noiseSeed evs p v) {t : Nat} (h0 : 0 < t) (h1 : t ≤ 300)
    (ht : t % speedAveragerStep = 0) :
    let q : Vector2d ℝ := BallParams.normalizedPos p.1 p.2
    let b := (run N ℝ G noiseSeed (evs ++ [.tick t])).ball
    Seen N G noiseSeed (evs ++ [.tick t]) p q ∧ b.pos = q ∧
      b.spXTerm = 0.2 * |q.x - v.x| ∧ b.spYTerm = 0.2 * |q.y - v.y| := by
  intro q b
  obtain ⟨hball, hs⟩ := h.tick h0 h1
  have hpos := BallParams.normalizeBallParams_pos p.1 p.2 t (run N ℝ G noiseSeed evs).ball
  have hrefresh := BallParams.normalizeBallParams_refresh p.1 p.2 t (run N ℝ G noiseSeed evs).ball
  rw [h.oldPos, ← hball] at hrefresh
  rw [← hball] at hs hpos
  rcases hrefresh with ⟨_, hx, hy, hold⟩ | ⟨hne, _⟩
  · rw [hold] at hs
    exact ⟨hs, hpos, hx, hy⟩
  · exact absurd ht hne

theorem Seen.waits (h : Seen N G noiseSeed evs p v) {m : Nat} (hm : m < 60) {k : Nat} (hk : k ≤ 4) :
    Seen N G noiseSeed (evs ++ (List.range' (5 * m + 1) k).map Event.tick) p v := by
  induction k with
  | zero =>
    rw [List.range'_zero, List.map_nil, List.append_nil]
    exact h
  | succ k ih =>
    rw [List.range'_1_concat, List.map_append, ← List.append_assoc]
    refine (ih (by omega)).wait (by omega) (by omega) ?_
    simp only [speedAveragerStep]
    omega

/-- The last tick of a block is its refresh. -/
theorem Seen.block (h : Seen N G noiseSeed evs p v) {m : Nat} (hm : m < 60) :
    let q : Vector2d ℝ := BallParams.normalizedPos p.1 p.2
    let b := (run N ℝ G noiseSeed (evs ++ block m)).ball
    Seen N G noiseSeed (evs ++ block m) p q ∧ b.pos = q ∧
      b.spXTerm = 0.2 * |q.x - v.x| ∧ b.spYTerm = 0.2 * |q.y - v.y| := by
  have hblock : evs ++ Sequential.block m =
      evs ++ (List.range' (5 * m + 1) 4).map Event.tick ++ [.tick (5 * m + 1 + 4)] := by
    rw [Sequential.block, List.range'_1_concat, List.map_append, ← List.append_assoc]
    rfl
  have ht : (5 * m + 1 + 4) % speedAveragerStep = 0 := by
    simp only [speedAveragerStep]
    omega
  rw [hblock]
  exact (h.waits hm le_rfl).refresh (by omega) (by omega) ht

/-- Samples at a point near enough take the window there. -/
theorem Seen.looks (h : Seen N G noiseSeed evs p v) {key : Uint} {p' : Int × Int}
    (hkey : sampleOfKey key 1 = some p') (hnear : History.sqDist p p' ≤ 98 ^ 2) :
    Seen N G noiseSeed (evs ++ looks key) p' v := by
  obtain ⟨l, hl⟩ := h.history
  obtain ⟨htimer, hstate, hball, -⟩ := looks_frame key (run N ℝ G noiseSeed evs)
  have hrun : run N ℝ G noiseSeed (evs ++ Sequential.looks key) =
      exec step (run N ℝ G noiseSeed evs) (Sequential.looks key) := exec_append step _ _ _
  have hlen : 16 ≤ (List.replicate 16 p ++ l).length := by
    rw [List.length_append, List.length_replicate]
    omega
  have hstays : History.StaysNear (List.replicate 16 p ++ l) p' := by
    refine History.staysNear_of_near hlen fun q hq => ?_
    rw [List.take_left' (List.length_replicate)] at hq
    obtain rfl := List.eq_of_mem_replicate hq
    exact hnear
  refine ⟨?_, ⟨List.replicate 16 p ++ l, ?_⟩, ?_⟩
  · rw [hrun, htimer, hstate]
    exact h.on
  · rw [BallController.history, List.filterMap_append, exec_append, samples_looks hkey]
    have hexec := History.exec_replicate ((History.along_iff_staysNear hlen p').mpr hstays)
    rw [← hl] at hexec ⊢
    exact hexec
  · rw [hrun, hball]
    exact h.oldPos

/-- The first samples fill the window. -/
theorem seen_looks {key : Uint} (hkey : sampleOfKey key 1 = some p) :
    Seen N G noiseSeed (looks key) p ⟨-1, 0⟩ := by
  obtain ⟨htimer, hstate, hball, -⟩ := looks_frame key (State.cMain N ℝ G noiseSeed)
  refine ⟨⟨htimer.trans (State.cMain_timerOn noiseSeed), hstate.trans (State.cMain_state noiseSeed)⟩,
    ⟨[], ?_⟩, ?_⟩
  · rw [history_looks hkey, List.append_nil]
  · exact (congrArg BallParams.oldPos hball).trans (State.cMain_fresh noiseSeed).oldPos

end Seen

/-- The ball is seen at the edge (19, 60), then at (72, 5), then on the way at
(72, 60) and at (72, 115). -/
def edgeToEdge : List Event :=
  looks 0x13BC ++ block 0 ++ looks 0x4885 ++ block 1 ++ looks 0x48BC ++ looks 0x48F3 ++ block 2

/-- In the run `edgeToEdge`, with consecutive ticks from 1, both speed terms
reach 0.4 and both rewards fall to -0.4. -/
theorem speed_terms_reach_bound :
    edgeToEdge.filterMap tickOf = List.range' 1 15 ∧
      (∃ b ∈ balls nMFM MuslRand 0 edgeToEdge, b.spXTerm = 0.4 ∧ b.rX = -0.4) ∧
      (∃ b ∈ balls nMFM MuslRand 0 edgeToEdge, b.spYTerm = 0.4 ∧ b.rY = -0.4) ∧
      ¬ ∀ b ∈ balls nMFM MuslRand 0 edgeToEdge, b.Ranged 0.3 := by
  obtain ⟨hright, hlow, hhigh⟩ := BallParams.normalizedPos_edges
  have hnorm : |(1 : ℝ)| = 1 := abs_one
  -- the reference starts at the left edge, so the right one is 2 away
  have h0 : Seen nMFM MuslRand 0 (looks 0x13BC) (19, 60) ⟨-1, 0⟩ := seen_looks (by decide)
  obtain ⟨h1, hpos1, hx, -⟩ := h0.block (m := 0) (by norm_num)
  dsimp only at hpos1 hx
  rw [hright] at hpos1 hx
  norm_num at hx
  have hmem1 : (run nMFM ℝ MuslRand 0 (looks 0x13BC ++ block 0)).ball ∈
      balls nMFM MuslRand 0 edgeToEdge := by
    have hmem := balls_subset_append (N := nMFM) (G := MuslRand) 0 (looks 0x13BC ++ block 0)
      (looks 0x4885 ++ block 1 ++ looks 0x48BC ++ looks 0x48F3 ++ block 2) (ball_mem_balls 0 _)
    simp only [← List.append_assoc] at hmem
    exact hmem
  -- along the other axis the block before sets the reference
  have hlow' : sampleOfKey 0x4885 1 = some (72, 5) := rfl
  have hmid' : sampleOfKey 0x48BC 1 = some (72, 60) := rfl
  have hhigh' : sampleOfKey 0x48F3 1 = some (72, 115) := rfl
  obtain ⟨h2, -⟩ := (h1.looks hlow' (by norm_num [History.sqDist])).block (m := 1) (by norm_num)
  have h3 := (h2.looks hmid' (by norm_num [History.sqDist])).looks hhigh'
    (by norm_num [History.sqDist])
  obtain ⟨-, hpos3, -, hy⟩ := h3.block (m := 2) (by norm_num)
  have hrun : edgeToEdge = looks 0x13BC ++ block 0 ++ looks 0x4885 ++ block 1 ++ looks 0x48BC ++
      looks 0x48F3 ++ block 2 := rfl
  dsimp only at hpos3 hy
  rw [hhigh, ← hrun] at hpos3
  rw [hhigh, hlow, ← hrun] at hy
  norm_num at hy
  have hmem3 := ball_mem_balls (N := nMFM) (G := MuslRand) 0 edgeToEdge
  refine ⟨by decide, ⟨_, hmem1, ?_, ?_⟩, ⟨_, hmem3, ?_, ?_⟩, fun h => ?_⟩
  · rw [hx]
    norm_num
  · exact BallParams.reward_edge (by rw [hpos1]; exact hnorm) (by rw [hx]; norm_num)
  · rw [hy]
    norm_num
  · exact BallParams.reward_edge (by rw [hpos3]; exact hnorm) (by rw [hy]; norm_num)
  · have hle := (h _ hmem1).spXTerm.2
    rw [hx] at hle
    norm_num at hle

end Sequential

end BallController
