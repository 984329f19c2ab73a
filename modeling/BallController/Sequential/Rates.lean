import BallController.Sequential.Axes

/-! The firing rates as a memory of the ball's way. Along each axis the rate of
a population is a leaky filter of its activations, so it stays in the unit
interval, a ball that keeps nearer keeps it higher, and half of what it was
before is forgotten at every call. -/

namespace BallController

namespace Axis
open Lib

variable {ι : Type} [Fintype ι] {α : Type} [Field α] [LinearOrder α]

omit [Fintype ι] in
/-- The rates are leaky filters of the activations at the positions `ps`. -/
theorem exec_fire_rate (center : ι → α) (a : Axis ι α) (ps : List α) (i : ι) :
    (exec (fun a p => a.fire center p) a ps).rate i =
      exec (leak tauM) (a.rate i) ((ps.map fun p => |p - center i|).map activation) := by
  induction ps generalizing a with
  | nil => rfl
  | cons p ps ih => exact ih (a.fire center p)

end Axis

namespace Sequential
open Lib Spin1Math

variable {N : Nat} {G : Type}

namespace State

section Calls

variable {α : Type} [Field α] [LinearOrder α] [FloorRing α] [Libm α]

/-- A call of `mfm_` with the ball at `p`. -/
def mfmAt (s : State N α G) (p : Vector2d α) : State N α G :=
  { s with ball := { s.ball with pos := p } }.mfm

/-- Calls of `mfm_` with the ball at `ps`. -/
def mfmCalls (s : State N α G) (ps : List (Vector2d α)) : State N α G := exec mfmAt s ps

end Calls

/-- All rates are in the unit interval. -/
structure UnitRates (s : State N ℝ G) : Prop where
  fX : ∀ i, 0 ≤ s.fX i ∧ s.fX i ≤ 1
  fY : ∀ i, 0 ≤ s.fY i ∧ s.fY i ≤ 1

theorem mfmAt_eq (s : State N ℝ G) (p : Vector2d ℝ) :
    (s.mfmAt p).center = s.center ∧ (s.mfmAt p).axisX = s.axisX.fire s.centerX p.x ∧
      (s.mfmAt p).axisY = s.axisY.fire s.centerY p.y := by
  rw [mfmAt, mfm_eq]
  exact ⟨rfl, rfl, rfl⟩

/-- The calls act on each axis alone. -/
theorem mfmCalls_axes (s : State N ℝ G) (ps : List (Vector2d ℝ)) :
    (s.mfmCalls ps).axisX = exec (fun a p => a.fire s.centerX p) s.axisX (ps.map fun p => p.x) ∧
      (s.mfmCalls ps).axisY =
        exec (fun a p => a.fire s.centerY p) s.axisY (ps.map fun p => p.y) := by
  induction ps generalizing s with
  | nil => exact ⟨rfl, rfl⟩
  | cons p ps ih =>
    obtain ⟨hcenter, hx, hy⟩ := mfmAt_eq s p
    have hcx : (s.mfmAt p).centerX = s.centerX := by
      funext i
      rw [centerX, hcenter, centerX]
    have hcy : (s.mfmAt p).centerY = s.centerY := by
      funext i
      rw [centerY, hcenter, centerY]
    have h := ih (s.mfmAt p)
    rw [hcx, hcy, hx, hy] at h
    exact h

theorem mfmCalls_fX (s : State N ℝ G) (ps : List (Vector2d ℝ)) (i : Fin N) :
    (s.mfmCalls ps).fX i =
      exec (leak tauM) (s.fX i) ((ps.map fun p => |p.x - (s.center i).x|).map activation) := by
  have hmap : (ps.map fun p => |p.x - (s.center i).x|) =
      (ps.map fun p => p.x).map fun p => |p - s.centerX i| := by
    rw [List.map_map]
    rfl
  have h := Axis.exec_fire_rate s.centerX s.axisX (ps.map fun p => p.x) i
  rw [← (mfmCalls_axes s ps).1, ← hmap] at h
  exact h

theorem mfmCalls_fY (s : State N ℝ G) (ps : List (Vector2d ℝ)) (i : Fin N) :
    (s.mfmCalls ps).fY i =
      exec (leak tauM) (s.fY i) ((ps.map fun p => |p.y - (s.center i).y|).map activation) := by
  have hmap : (ps.map fun p => |p.y - (s.center i).y|) =
      (ps.map fun p => p.y).map fun p => |p - s.centerY i| := by
    rw [List.map_map]
    rfl
  have h := Axis.exec_fire_rate s.centerY s.axisY (ps.map fun p => p.y) i
  rw [← (mfmCalls_axes s ps).2, ← hmap] at h
  exact h

theorem UnitRates.mfmCalls {s : State N ℝ G} (h : s.UnitRates) (ps : List (Vector2d ℝ)) :
    (s.mfmCalls ps).UnitRates where
  fX i := by
    rw [mfmCalls_fX]
    exact exec_leak_rate_mem (h.fX i) _
  fY i := by
    rw [mfmCalls_fY]
    exact exec_leak_rate_mem (h.fY i) _

variable [Prng G]

/-- A tick fires once, at the position that the tick before has left. -/
theorem learn_rates (t : Nat) (s : State N ℝ G) :
    (s.learn t).fX = (s.mfmAt s.ball.pos).fX ∧ (s.learn t).fY = (s.mfmAt s.ball.pos).fY := by
  obtain ⟨-, hax, hay⟩ := mfmAt_eq s s.ball.pos
  obtain ⟨hbx, hby⟩ := beforeMove_axes s
  have hx : (s.learn t).fX = s.beforeMove.axisX.rate := by
    rw [learn_eq]
    rfl
  have hy : (s.learn t).fY = s.beforeMove.axisY.rate := by
    rw [learn_eq]
    rfl
  rw [hx, hy, hbx, hby]
  exact ⟨congrArg Axis.rate hax.symm, congrArg Axis.rate hay.symm⟩

theorem UnitRates.learn {s : State N ℝ G} (h : s.UnitRates) (t : Nat) : (s.learn t).UnitRates := by
  have hcall : (s.mfmAt s.ball.pos).UnitRates := h.mfmCalls [s.ball.pos]
  obtain ⟨hx, hy⟩ := learn_rates t s
  refine ⟨fun i => ?_, fun i => ?_⟩
  · rw [hx]
    exact hcall.fX i
  · rw [hy]
    exact hcall.fY i

end State

variable [Prng G]

theorem unitRates_cMain (noiseSeed : Uint) : (State.cMain N ℝ G noiseSeed).UnitRates := by
  refine ⟨fun i => ?_, fun i => ?_⟩
  · rw [State.cMain_fX]
    exact ⟨le_rfl, zero_le_one⟩
  · rw [State.cMain_fY]
    exact ⟨le_rfl, zero_le_one⟩

/-- Whatever the camera and the timer do, the rates stay in the unit interval. -/
theorem unitRates_run (noiseSeed : Uint) (evs : List Event) :
    (run N ℝ G noiseSeed evs).UnitRates := by
  refine exec_induction (fun s e h => ?_) (unitRates_cMain noiseSeed) evs
  cases e with
  | camera key now =>
    simp only [step, State.cameraEvent]
    split <;> exact ⟨h.fX, h.fY⟩
  | tick t =>
    simp only [step]
    split
    · have hupdate : (s.update t).UnitRates =
          (if s.state = .unbalanced then s.learn t else s).UnitRates :=
        State.update_frame State.UnitRates
          (fun s => propext ⟨fun h => ⟨h.fX, h.fY⟩, fun h => ⟨h.fX, h.fY⟩⟩) t s
      rw [hupdate]
      split
      · exact h.learn t
      · exact h
    · exact h

/-- Distances are compared call by call, also along a part of the calls. -/
theorem forall₂_distances {f : Vector2d ℝ → ℝ} {c : ℝ} {ps ps' : List (Vector2d ℝ)}
    (h : List.Forall₂ (fun p p' => |f p - c| ≤ |f p' - c|) ps ps') (k : Nat) :
    List.Forall₂ (· ≤ ·) ((ps.take k).map fun p => |f p - c|)
      ((ps'.take k).map fun p => |f p - c|) := by
  rw [List.forall₂_map_left_iff, List.forall₂_map_right_iff]
  exact List.forall₂_take k h

omit [Prng G] in
/-- Two sequences of calls of `mfm_` on the same centres. All rates stay in the
unit interval; along each axis the run whose ball is at every call at least as
near to a population keeps the higher rate of it after every call; and at the
same positions the difference of the rates halves at every call. -/
theorem rates_order_and_forget {s s' : State N ℝ G} (hcenter : s'.center = s.center)
    (hs : s.UnitRates) (hs' : s'.UnitRates) (ps ps' : List (Vector2d ℝ)) :
    (∀ k, (s.mfmCalls (ps.take k)).UnitRates ∧ (s'.mfmCalls (ps'.take k)).UnitRates) ∧
      (∀ i, List.Forall₂ (fun p p' => |p.x - (s.center i).x| ≤ |p'.x - (s.center i).x|) ps ps' →
        s'.fX i ≤ s.fX i → ∀ k, (s'.mfmCalls (ps'.take k)).fX i ≤ (s.mfmCalls (ps.take k)).fX i) ∧
      (∀ i, List.Forall₂ (fun p p' => |p.y - (s.center i).y| ≤ |p'.y - (s.center i).y|) ps ps' →
        s'.fY i ≤ s.fY i → ∀ k, (s'.mfmCalls (ps'.take k)).fY i ≤ (s.mfmCalls (ps.take k)).fY i) ∧
      (ps = ps' → ∀ i,
        (s.mfmCalls ps).fX i - (s'.mfmCalls ps').fX i = (s.fX i - s'.fX i) / 2 ^ ps.length ∧
        (s.mfmCalls ps).fY i - (s'.mfmCalls ps').fY i = (s.fY i - s'.fY i) / 2 ^ ps.length) := by
  refine ⟨fun k => ⟨hs.mfmCalls _, hs'.mfmCalls _⟩, fun i hnear hf k => ?_, fun i hnear hf k => ?_,
    ?_⟩
  · rw [State.mfmCalls_fX, State.mfmCalls_fX, hcenter]
    exact exec_leak_rate_mono hf (forall₂_distances hnear k)
  · rw [State.mfmCalls_fY, State.mfmCalls_fY, hcenter]
    exact exec_leak_rate_mono hf (forall₂_distances hnear k)
  · rintro rfl i
    rw [State.mfmCalls_fX, State.mfmCalls_fX, State.mfmCalls_fY, State.mfmCalls_fY, hcenter,
      exec_leak_rate_sub, exec_leak_rate_sub]
    simp only [List.length_map, and_self]

/-- Three calls with the ball on the centre of population 34 and all rates 1,
three with the ball on its way along the centre line and all rates 0. -/
theorem rates_order_and_forget_three :
    let s' := State.cMain nMFM ℝ MuslRand 0
    let s := { s' with fX := fun _ => 1, fY := fun _ => 1 }
    let i : Fin nMFM := ⟨34, by decide⟩
    let near := List.replicate 3 (s.center i)
    (∀ k, (s'.mfmCalls ([⟨-1, 0⟩, ⟨0, 0⟩, ⟨1, 0⟩].take k)).fX i ≤ (s.mfmCalls (near.take k)).fX i) ∧
      (s.mfmCalls near).fX i - (s'.mfmCalls near).fX i = 1 / 8 := by
  intro s' s i near
  have hs : s.UnitRates := ⟨fun _ => ⟨zero_le_one, le_rfl⟩, fun _ => ⟨zero_le_one, le_rfl⟩⟩
  have hs' : s'.UnitRates := unitRates_cMain 0
  have h0 : s'.fX i = 0 := congrFun (State.cMain_fX 0) i
  have hnear : ∀ p : Vector2d ℝ, |(s.center i).x - (s.center i).x| ≤ |p.x - (s.center i).x| := by
    intro p
    rw [sub_self, abs_zero]
    exact abs_nonneg _
  have hcenter : s'.center = s.center := rfl
  obtain ⟨-, hx, -, -⟩ := rates_order_and_forget hcenter hs hs' near [⟨-1, 0⟩, ⟨0, 0⟩, ⟨1, 0⟩]
  obtain ⟨-, -, -, hforget⟩ := rates_order_and_forget hcenter hs hs' near near
  refine ⟨hx i ?_ ?_, ?_⟩
  · exact .cons (hnear _) (.cons (hnear _) (.cons (hnear _) .nil))
  · rw [h0]
    exact zero_le_one
  · rw [(hforget rfl i).1, h0, List.length_replicate]
    norm_num [s]

end Sequential

end BallController
