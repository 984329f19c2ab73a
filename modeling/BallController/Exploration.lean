import BallController.Draws
import BallController.Parallel.Master
import BallController.Sequential.Motors

/-! How far the exploration reaches. The noise always has the same length, since
the logarithm of the Box-Muller transform is a constant, and it is scaled by a
factor that no value of the critic can raise above 0.05. So no command of a run
is more than 15 servo positions away from what the actor alone would command. -/

namespace BallController
open Lib Spin1Math

/-! ## The factor -/

/-- The factor of the noise, whatever the old value. -/
theorem sigmaOf_mem (v : ℝ) : 0 ≤ sigmaOf v ∧ sigmaOf v ≤ 0.05 := by
  have hk : (kNoise : ℝ) = 0.5 := rfl
  have hs : (sigma0 : ℝ) = 0.1 := rfl
  unfold sigmaOf Spin1Math.min Spin1Math.max
  rw [hk, hs]
  split <;> split <;> constructor <;> norm_num at * <;> linarith

theorem abs_sigmaOf_mul_le {v n : ℝ} (hn : |n| ≤ 0.5888) : |sigmaOf v * n| ≤ 0.02944 := by
  obtain ⟨h0, h1⟩ := sigmaOf_mem v
  rw [abs_mul, abs_of_nonneg h0]
  calc sigmaOf v * |n| ≤ 0.05 * 0.5888 := mul_le_mul h1 hn (abs_nonneg n) (by norm_num)
    _ = 0.02944 := by norm_num

/-! ## The servo -/

/-- The clamp brings no two values further apart. -/
theorem abs_range_sub_le (u v : ℝ) : |range u (-1.0) 1.0 - range v (-1.0) 1.0| ≤ |u - v| := by
  have hclamp : ∀ w : ℝ, range w (-1.0) 1.0 = max (Min.min w 1) (-1) := by
    intro w
    have h1 : (1.0 : ℝ) = 1 := by norm_num
    unfold range
    rw [h1]
    split
    · next h => rw [min_eq_right h.le, max_eq_left (by norm_num)]
    split
    · next h k => rw [min_eq_left (not_lt.mp h), max_eq_right k.le]
    · next h k => rw [min_eq_left (not_lt.mp h), max_eq_left (not_lt.mp k)]
  have hmin := abs_min_sub_min_le_max u 1 v 1
  rw [sub_self, abs_zero, max_eq_left (abs_nonneg _)] at hmin
  rw [hclamp, hclamp]
  exact (abs_max_sub_max_le_abs _ _ _).trans hmin

/-- Two normalised commands that drive the servos to positions at most 15 apart. -/
structure Near (c d : ℝ × ℝ) : Prop where
  x : |servoX c.1 - servoX d.1| ≤ 15
  y : |servoY c.2 - servoY d.2| ≤ 15

theorem Near.refl (c : ℝ × ℝ) : Near c c := by
  constructor <;> simp

theorem abs_trunc_motorDelta_sub_le {u v : ℝ} (h : |u - v| ≤ 0.02944) :
    |trunc (u * motorDelta) - trunc (v * motorDelta)| ≤ 15 := by
  have hd : ((motorDelta : Int) : ℝ) = 500 := by norm_num [motorDelta, motorMax, motorMin]
  have ht := abs_trunc_sub_trunc_lt (u * (motorDelta : Int)) (v * (motorDelta : Int))
  rw [hd, ← sub_mul, abs_mul, abs_of_pos (by norm_num : (0 : ℝ) < 500)] at ht
  have hlt : ((|trunc (u * 500) - trunc (v * 500)| : ℤ) : ℝ) < 16 := by
    push_cast
    norm_num at h ht ⊢
    linarith
  have hlt' : |trunc (u * 500) - trunc (v * 500)| < 16 := by exact_mod_cast hlt
  rw [hd]
  omega

/-- Clamped outputs that differ by the noise alone. -/
theorem near_of_noise {a b v w : ℝ} {n : Vector2d ℝ} (hx : |n.x| ≤ 0.5888) (hy : |n.y| ≤ 0.5888) :
    Near (range (a + sigmaOf v * n.x) (-1.0) 1.0, range (b + sigmaOf w * n.y) (-1.0) 1.0)
      (range a (-1.0) 1.0, range b (-1.0) 1.0) := by
  have h : ∀ {a v m : ℝ}, |m| ≤ 0.5888 →
      |range (a + sigmaOf v * m) (-1.0) 1.0 - range a (-1.0) 1.0| ≤ 0.02944 := by
    intro a v m hm
    refine (abs_range_sub_le _ _).trans ?_
    rw [add_sub_cancel_left]
    exact abs_sigmaOf_mul_le hm
  constructor
  · rw [servoX, servoX, add_sub_add_right_eq_sub]
    exact abs_trunc_motorDelta_sub_le (h hx)
  · rw [servoY, servoY, add_sub_add_right_eq_sub]
    exact abs_trunc_motorDelta_sub_le (h hy)

/-- The two servo positions of a packet are at most 15 away from those of the
command `c`. -/
structure Explores (p : Packet) (c : ℝ × ℝ) : Prop where
  hi : |((p.payload >>> 16).toNat : Int) - servoX c.1| ≤ 15
  lo : |((p.payload &&& 0xFFFF#32).toNat : Int) - servoY c.2| ≤ 15

/-- A packet carries the positions of its command. -/
theorem servo_of_packet {x y : ℝ} (hx : |x| ≤ 1) (hy : |y| ≤ 1) :
    (((sendNormMotorCommand x y).payload >>> 16).toNat : Int) = servoX x ∧
      (((sendNormMotorCommand x y).payload &&& 0xFFFF#32).toNat : Int) = servoY y := by
  have hX := servoX_mem hx
  have hY := servoY_mem hy
  simp only [motorMin, motorMax] at hY
  have eX := toNat_toUint (i := servoX x) (by omega) (by omega)
  have eY := toNat_toUint (i := servoY y) (by omega) (by omega)
  have fX : hiHalf.Fits (toUint (servoX x)) := by simp only [BitField.Fits, hiHalf]; omega
  have fY : loHalf.Fits (toUint (servoY y)) := by simp only [BitField.Fits, loHalf]; omega
  obtain ⟨hhi, hlo⟩ := halves fX fY
  exact ⟨(congrArg (fun u : Uint => (u.toNat : Int)) hhi).trans eX,
    (congrArg (fun u : Uint => (u.toNat : Int)) hlo).trans eY⟩

/-- Near commands of the normalised range, as packets. -/
theorem explores_of_near {cmds quiet : List (ℝ × ℝ)} (hmem : ∀ c ∈ cmds, |c.1| ≤ 1 ∧ |c.2| ≤ 1)
    (h : List.Forall₂ Near cmds quiet) :
    List.Forall₂ Explores (cmds.map fun c => sendNormMotorCommand c.1 c.2) quiet := by
  rw [List.forall₂_map_left_iff]
  refine ((List.forall₂_and_left _ _).mpr ⟨hmem, h⟩).imp fun c d hc => ?_
  obtain ⟨⟨hx, hy⟩, hnear⟩ := hc
  obtain ⟨hhi, hlo⟩ := servo_of_packet hx hy
  exact ⟨by rw [hhi]; exact hnear.x, by rw [hlo]; exact hnear.y⟩

/-! ## Runs of the sequential program -/

namespace Sequential

section Defs

variable {N : Nat} {α G : Type} [Field α] [LinearOrder α] [FloorRing α] [Libm α] [Prng G]

/-- What a tick would send without noise. -/
def quietCommands (s : State N α G) : Event → List (α × α)
  | .camera _ _ => []
  | .tick t =>
    if s.timerOn = true ∧ s.state = .unbalanced then
      ({ s.beforeMove with n := ⟨0, 0⟩ }.motorCommand t).toList
    else []

end Defs

variable {N : Nat} {G : Type} [Prng G]

/-- The commands of a run, each as it would be without the noise of its tick. -/
noncomputable def quietRun (N : Nat) (G : Type) [Prng G] (noiseSeed : Uint) (evs : List Event) :
    List (ℝ × ℝ) :=
  (0, 0) :: emitted step quietCommands (State.cMain N ℝ G noiseSeed) evs

theorem beforeMove_n (s : State N ℝ G) : s.beforeMove.n = (noise s.mfm.gen).1 := by
  rw [State.beforeMove, State.updateA_eq]
  rfl

theorem commands_near (s : State N ℝ G) (e : Event) :
    List.Forall₂ Near (commands s e) (quietCommands s e) := by
  cases e with
  | camera key now => exact List.Forall₂.nil
  | tick t =>
    obtain ⟨hx, hy⟩ := abs_noise_le_radius (G := G) s.mfm.gen
    rw [← beforeMove_n] at hx hy
    simp only [commands, quietCommands]
    split
    · unfold State.motorCommand
      dsimp only
      split
      · exact List.Forall₂.cons (Near.refl _) List.Forall₂.nil
      split
      · split
        · exact List.Forall₂.cons (Near.refl _) List.Forall₂.nil
        · exact List.Forall₂.nil
      · refine List.Forall₂.cons ?_ List.Forall₂.nil
        have hq : State.actorOutputs { s.beforeMove with n := ⟨0, 0⟩ } =
            (s.beforeMove.axisX.action, s.beforeMove.axisY.action) := by
          rw [State.actorOutputs_eq]
          simp only [Axis.output, mul_zero, add_zero]
          rfl
        rw [hq, State.actorOutputs_eq]
        exact near_of_noise hx hy
    · exact List.Forall₂.nil

end Sequential

/-! ## Runs of the master -/

namespace Parallel

section Defs

variable {α G : Type} [Field α] [LinearOrder α] [FloorRing α] [Libm α] [Prng G]

/-- What a tick would send without noise: the means of the reported actions. -/
def quietCommands (c : Core α G) : MasterEvent → List (α × α)
  | .packet _ _ _ => []
  | .tick _ =>
    if c.timerOn = true ∧ c.state = .unbalanced then
      [(range c.actorMeans.1 (-1.0) 1.0, range c.actorMeans.2 (-1.0) 1.0)]
    else []

end Defs

variable {G : Type} [Prng G]

noncomputable def quietRun (G : Type) [Prng G] (evs : List MasterEvent) : List (ℝ × ℝ) :=
  (0, 0) :: emitted masterStep quietCommands (masterStart ℝ G) evs

theorem commands_near (c : Core ℝ G) (e : MasterEvent) :
    List.Forall₂ Near (commands c e) (quietCommands c e) := by
  cases e with
  | packet key payload now => exact List.Forall₂.nil
  | tick t =>
    obtain ⟨hx, hy⟩ := abs_noise_le_radius (G := G) c.gen
    simp only [commands, quietCommands]
    split
    · exact List.Forall₂.cons (near_of_noise hx hy) List.Forall₂.nil
    · exact List.Forall₂.nil

/-- The same of the master, whatever packets it receives. -/
theorem master_exploration_bounded (evs : List MasterEvent) :
    List.Forall₂ Explores (motorPackets (masterRun ℝ G evs).sent) (quietRun G evs) := by
  have hmem : ∀ c ∈ runCommands G evs, |c.1| ≤ 1 ∧ |c.2| ≤ 1 := by
    refine List.forall_mem_cons.mpr ⟨by simp, ?_⟩
    exact forall_emitted.mpr (along_of_invariant (I := fun _ => True) (fun _ _ h => h)
      (fun c e _ => commands_mem c e) trivial evs)
  rw [motorPackets_run]
  refine explores_of_near hmem (List.Forall₂.cons (Near.refl _) ?_)
  exact forall₂_emitted (I := fun _ => True) (fun _ _ h => h) (fun c e _ => commands_near c e)
    trivial evs

end Parallel

end BallController
