import BallController.Sequential.Init

/-! Which way `update_A` moves the command. The design document reinforces: an
output that noise has pushed and a positive error has rewarded should move
further that way. The sign in the program is the other one, so that every update
that changes an output at all moves it against the noise of a success. -/

namespace BallController
open Lib Spin1Math

/-- What reinforcement asks of an output that moves by `d` after the noise `n` and
the error `δ`: the direction of the noise for a success, the other one for a
failure, strictly so when the noise is not zero and some population fires. -/
structure Reinforces (δ n d : ℝ) (fires : Prop) : Prop where
  success : 0 < δ → 0 ≤ d * n ∧ (n ≠ 0 → fires → 0 < d * n)
  failure : δ < 0 → d * n ≤ 0 ∧ (n ≠ 0 → fires → d * n < 0)

namespace Axis

variable {ι : Type} [Fintype ι]

theorem mean_sub (f g : ι → ℝ) : mean (fun i => f i - g i) = mean f - mean g := by
  simp only [mean, Finset.sum_sub_distrib, sub_div]

theorem mean_const_mul (c : ℝ) (f : ι → ℝ) : mean (fun i => c * f i) = c * mean f := by
  simp only [mean, ← Finset.mul_sum, mul_div_assoc]

/-- The step of the output is that of the noise, scaled by the mean square rate. -/
theorem action_learnActor (n : ℝ) (a : Axis ι ℝ) : (a.learnActor n).action - a.action =
    -(learningRateA * a.error * n) * mean fun i => a.rate i * a.rate i := by
  have hcell : ∀ i, (a.learnActor n).actor i * a.rate i =
      a.actor i * a.rate i - learningRateA * a.error * n * (a.rate i * a.rate i) := by
    intro i
    simp only [learnActor]
    ring
  have haction : (a.learnActor n).action = mean fun i => (a.learnActor n).actor i * a.rate i := rfl
  rw [haction, funext hcell, mean_sub, mean_const_mul, action]
  ring

theorem mean_sq_nonneg (φ : ι → ℝ) : 0 ≤ mean fun i => φ i * φ i :=
  div_nonneg (Finset.sum_nonneg fun i _ => mul_self_nonneg (φ i)) (Nat.cast_nonneg _)

theorem mean_sq_eq_zero (φ : ι → ℝ) : (mean fun i => φ i * φ i) = 0 ↔ ∀ i, φ i = 0 := by
  have hsum := Finset.sum_eq_zero_iff_of_nonneg (s := Finset.univ)
    fun (i : ι) _ => mul_self_nonneg (φ i)
  constructor
  · intro h i
    have hcard : (Fintype.card ι : ℝ) ≠ 0 := by
      have : Nonempty ι := ⟨i⟩
      exact_mod_cast Fintype.card_ne_zero
    have h0 : ∑ i, φ i * φ i = 0 := (div_eq_zero_iff.mp h).resolve_right hcard
    exact mul_self_eq_zero.mp (hsum.mp h0 i (Finset.mem_univ i))
  · intro h
    simp [mean, h]

end Axis

/-- A step against the product of error and noise reinforces only when it is
none. -/
theorem reinforces_neg_iff {η q : ℝ} (hη : 0 < η) (hq : 0 ≤ q) {fires : Prop}
    (hfires : q = 0 ↔ ¬fires) (δ n : ℝ) :
    Reinforces δ n (-(η * δ * n) * q) fires ↔ δ = 0 ∨ n = 0 ∨ ¬fires := by
  have hd : -(η * δ * n) * q * n = -(η * q * (n * n)) * δ := by ring
  constructor
  · intro h
    by_contra hne
    push Not at hne
    obtain ⟨hδ, hn, hf⟩ := hne
    have hq0 : 0 < q := lt_of_le_of_ne hq fun h0 => hfires.mp h0.symm hf
    have hc : 0 < η * q * (n * n) := mul_pos (mul_pos hη hq0) (mul_self_pos.mpr hn)
    rcases lt_or_gt_of_ne hδ with hneg | hpos
    · have hs := (h.failure hneg).2 hn hf
      rw [hd] at hs
      nlinarith
    · have hs := (h.success hpos).2 hn hf
      rw [hd] at hs
      nlinarith
  · rintro (rfl | rfl | hf)
    · exact ⟨fun h => absurd h (lt_irrefl 0), fun h => absurd h (lt_irrefl 0)⟩
    · exact ⟨fun _ => ⟨by simp, fun h => absurd rfl h⟩, fun _ => ⟨by simp, fun h => absurd rfl h⟩⟩
    · have h0 : -(η * δ * n) * q * n = 0 := by rw [hfires.mpr hf, mul_zero, zero_mul]
      exact ⟨fun _ => ⟨h0.ge, fun _ h => absurd h hf⟩, fun _ => ⟨h0.le, fun _ h => absurd h hf⟩⟩

namespace Sequential

namespace State

section Defs

variable {N : Nat} {α G : Type} [Field α] [LinearOrder α] [FloorRing α] [Libm α] [Prng G]

/-- The actor outputs that `move` computes without noise. -/
def noiseFree (s : State N α G) : α × α := ({ s with n := ⟨0, 0⟩ } : State N α G).actorOutputs

end Defs

variable {N : Nat} {G : Type}

theorem noiseFree_eq (s : State N ℝ G) : s.noiseFree = (s.axisX.action, s.axisY.action) := by
  rw [noiseFree, actorOutputs_eq]
  simp only [Axis.output, mul_zero, add_zero]
  rfl

/-- Firing rates in the unit interval stay there. -/
theorem mfm_rate_mem {s : State N ℝ G} {i : Fin N}
    (h : (0 ≤ s.fX i ∧ s.fX i ≤ 1) ∧ 0 ≤ s.fY i ∧ s.fY i ≤ 1) :
    (0 ≤ s.mfm.fX i ∧ s.mfm.fX i ≤ 1) ∧ 0 ≤ s.mfm.fY i ∧ s.mfm.fY i ≤ 1 := by
  rw [mfm_eq]
  exact ⟨rate_step_mem h.1 _, rate_step_mem h.2 _⟩

theorem mfm_errorX (s : State N ℝ G) : s.mfm.errorX = s.errorX := by
  rw [mfm_eq]
  rfl

variable [Prng G]

/-- On both axes, the update moves the noise-free output as the design document
says. -/
structure ActorReinforces (s : State N ℝ G) : Prop where
  x : Reinforces s.errorX (noise (α := ℝ) s.gen).1.x (s.updateA.noiseFree.1 - s.noiseFree.1)
    (∃ i, s.fX i ≠ 0)
  y : Reinforces s.errorY (noise (α := ℝ) s.gen).1.y (s.updateA.noiseFree.2 - s.noiseFree.2)
    (∃ i, s.fY i ≠ 0)

/-- The learner `a` is one axis before `update_A`. -/
theorem reinforces_learnActor_iff (n : ℝ) (a : Axis (Fin N) ℝ) :
    Reinforces a.error n ((a.learnActor n).action - a.action) (∃ i, a.rate i ≠ 0) ↔
      a.error = 0 ∨ n = 0 ∨ ∀ i, a.rate i = 0 := by
  have hη : (0 : ℝ) < learningRateA := by norm_num [learningRateA]
  have hfires : (∀ i, a.rate i = 0) ↔ ¬∃ i, a.rate i ≠ 0 := by simp
  rw [Axis.action_learnActor, hfires]
  exact reinforces_neg_iff hη (Axis.mean_sq_nonneg _) ((Axis.mean_sq_eq_zero _).trans hfires) _ _

theorem reinforces_x_iff (s : State N ℝ G) :
    Reinforces s.errorX (noise (α := ℝ) s.gen).1.x (s.updateA.noiseFree.1 - s.noiseFree.1)
        (∃ i, s.fX i ≠ 0) ↔
      s.errorX = 0 ∨ (noise (α := ℝ) s.gen).1.x = 0 ∨ ∀ i, s.fX i = 0 := by
  rw [noiseFree_eq, noiseFree_eq, updateA_eq]
  exact reinforces_learnActor_iff _ s.axisX

theorem reinforces_y_iff (s : State N ℝ G) :
    Reinforces s.errorY (noise (α := ℝ) s.gen).1.y (s.updateA.noiseFree.2 - s.noiseFree.2)
        (∃ i, s.fY i ≠ 0) ↔
      s.errorY = 0 ∨ (noise (α := ℝ) s.gen).1.y = 0 ∨ ∀ i, s.fY i = 0 := by
  rw [noiseFree_eq, noiseFree_eq, updateA_eq]
  exact reinforces_learnActor_iff _ s.axisY

/-- The update reinforces exactly when it changes neither output. -/
theorem actorReinforces_iff (s : State N ℝ G) :
    s.ActorReinforces ↔
      (s.errorX = 0 ∨ (noise (α := ℝ) s.gen).1.x = 0 ∨ ∀ i, s.fX i = 0) ∧
        (s.errorY = 0 ∨ (noise (α := ℝ) s.gen).1.y = 0 ∨ ∀ i, s.fY i = 0) :=
  ⟨fun h => ⟨(reinforces_x_iff s).mp h.x, (reinforces_y_iff s).mp h.y⟩,
    fun h => ⟨(reinforces_x_iff s).mpr h.1, (reinforces_y_iff s).mpr h.2⟩⟩

/-- The first call has the error 1 and fires at the left edge: its update moves
`theta` against the noise. -/
theorem first_update_unlearns :
    let s := (cMain nMFM ℝ MuslRand 0).mfm
    (∀ i, (0 ≤ s.fX i ∧ s.fX i ≤ 1) ∧ 0 ≤ s.fY i ∧ s.fY i ≤ 1) ∧ 0 < s.errorX ∧
      ¬s.ActorReinforces := by
  intro s
  have herror : s.errorX = 1.0 := (mfm_errorX _).trans (cMain_errorX 0)
  refine ⟨fun i => mfm_rate_mem ?_, by rw [herror]; norm_num, fun h => ?_⟩
  · rw [cMain_fX, cMain_fY]
    exact ⟨⟨le_rfl, zero_le_one⟩, le_rfl, zero_le_one⟩
  · rcases (reinforces_x_iff s).mp h.x with h0 | h0 | h0
    · rw [herror] at h0
      norm_num at h0
    · exact noise_x_ne_zero _ h0
    · exact cMain_mfm_left_fires 0 (h0 ⟨34, by decide⟩)

end State

end Sequential

end BallController
