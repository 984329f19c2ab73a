import BallController.Sequential.Spec

/-! What `init_network` leaves: the centres of the populations. The loops run
over the cores 0 to 15 of four chips, but a core counts from 1: the first pair
wraps around to the largest number, and the last population gets no centre. -/

namespace BallController.Sequential
open Lib Spin1Math

variable {G : Type} [Prng G]

/-- The index that `init_MFM` writes for a pair. -/
def initIndex (p : Uint × Uint) : Nat := (coreNb (chipYOf p.1) (chipXOf p.1) p.2).toNat

/-- The pair whose number is `i`. -/
def populationId (i : Nat) : Uint × Uint := State.initPairs.getD (i + 1) (0, 0)

theorem initIndex_nodup : (State.initPairs.map initIndex).Nodup := by decide

theorem populationId_mem : ∀ i < 63, populationId i ∈ State.initPairs := by decide

theorem initIndex_populationId : ∀ i < 63, initIndex (populationId i) = i := by decide

theorem initIndex_ne_last : ∀ p ∈ State.initPairs, initIndex p ≠ 63 :=
  forall_mem_of_all (by decide)

namespace State

omit [Prng G] in
theorem foldl_initMFM (l : List (Uint × Uint)) {N : Nat} (s : State N ℝ G) :
    l.foldl (fun s p => initMFM p.1 p.2 s) s = { s with
      center := l.foldl (fun a p => CArray.write a (initIndex p) (centerOf p.1 p.2)) s.center } := by
  induction l generalizing s with
  | nil => rfl
  | cons p l ih =>
    rw [List.foldl_cons, ih]
    rfl

theorem initParams_center {N : Nat} (s : State N ℝ G) : s.initParams.center = s.center := by
  unfold initParams
  have hb : ∀ t : State N ℝ G, (forLoop 4 initBuffers t).center = t.center :=
    forLoop_frame (f := fun s : State N ℝ G => s.center) fun _ _ => rfl
  have hi : ∀ (t : State N ℝ G) i, (initWeights t i).center = t.center := fun _ _ => rfl
  have hw : (forLoop N initWeights s).center = s.center :=
    forLoop_frame (f := fun s : State N ℝ G => s.center) hi s
  rw [hb, hw]

theorem initNetwork_center {N : Nat} (noiseSeed : Uint) (s : State N ℝ G) :
    (s.initNetwork noiseSeed).center = initPairs.foldl
      (fun a p => CArray.write a (initIndex p) (centerOf p.1 p.2)) s.center := by
  unfold initNetwork
  generalize initPairs = l
  rw [initParams_center, foldl_initMFM]

/-- Population `i` stands where the pair numbered `i` puts it; the last one
stays where it was. -/
theorem foldl_center {l : List (Uint × Uint)} (hnd : (l.map initIndex).Nodup)
    (hmem : ∀ i < 63, populationId i ∈ l) (hne : ∀ p ∈ l, initIndex p ≠ 63)
    (a : CArray nMFM (Vector2d ℝ)) (i : Fin nMFM) :
    l.foldl (fun a p => CArray.write a (initIndex p) (centerOf p.1 p.2)) a i =
      if i.val < 63 then centerOf (populationId i).1 (populationId i).2 else a i := by
  split
  · next h =>
    exact foldl_write_of_mem initIndex (fun p => centerOf p.1 p.2) a hnd (hmem i h)
      (initIndex_populationId i h)
  · next h =>
    have hi : i.val = 63 := by
      have := i.isLt
      simp only [nMFM] at this
      omega
    exact foldl_write_of_forall_ne initIndex (fun p => centerOf p.1 p.2) a fun p hp =>
      hi ▸ hne p hp

theorem cMain_center (noiseSeed : Uint) (i : Fin nMFM) :
    (cMain nMFM ℝ G noiseSeed).center i =
      if i.val < 63 then centerOf (populationId i).1 (populationId i).2 else ⟨0, 0⟩ := by
  have hc := congrFun (initNetwork_center noiseSeed
    { globals nMFM ℝ G with sent := startDevices }) i
  rw [foldl_center initIndex_nodup populationId_mem initIndex_ne_last] at hc
  exact hc

/-- The initial weights are small, on the x axis for instance. -/
theorem abs_cMain_weights_le {N : Nat} (noiseSeed : Uint) (i : Fin N) :
    |(cMain N ℝ G noiseSeed).wVXArray i| ≤ 1 / 10 ∧
      |(cMain N ℝ G noiseSeed).wAThetaArray i| ≤ 1 / 10 := by
  let s : State N ℝ G := initPairs.foldl (fun s p => initMFM p.1 p.2 s) { globals N ℝ G with
    ball := { (globals N ℝ G).ball with
      pos := ⟨-1.0, 0.0⟩, oldPos := ⟨-1.0, 0.0⟩, speed := ⟨0.0, 0.0⟩ }
    n := ⟨0.0, 0.0⟩
    gen := Prng.srand noiseSeed
    sent := startDevices }
  let small : CArray N ℝ × CArray N ℝ → Prop := fun w => ∀ i, |w.1 i| ≤ 1 / 10 ∧ |w.2 i| ≤ 1 / 10
  have hs : (s.wVXArray, s.wAThetaArray) = (0, 0) := by
    simp only [s, foldl_initMFM]
    rfl
  have h0 : small (s.wVXArray, s.wAThetaArray) := by
    rw [hs]
    intro i
    simp
  have hloop : small ((forLoop N initWeights s).wVXArray, (forLoop N initWeights s).wAThetaArray) := by
    refine forLoop_induction (P := fun t : State N ℝ G => small (t.wVXArray, t.wAThetaArray)) h0 ?_
    intro t j ht i
    simp only [initWeights, CArray.write_apply]
    split
    · exact ⟨abs_initWeight_le _, abs_initWeight_le _⟩
    · exact ht i
  have hbuffers : ∀ (t : State N ℝ G) (j : Fin 4), ((initBuffers t j).wVXArray,
      (initBuffers t j).wAThetaArray) = (t.wVXArray, t.wAThetaArray) := fun _ _ => rfl
  have hframe := forLoop_frame (f := fun t : State N ℝ G => (t.wVXArray, t.wAThetaArray)) hbuffers
    (forLoop N initWeights s)
  have hmain : small ((cMain N ℝ G noiseSeed).wVXArray, (cMain N ℝ G noiseSeed).wAThetaArray) := by
    rw [← hframe] at hloop
    exact hloop
  exact hmain i

/-- The rates of the first call: half the activations at (-1, 0). -/
theorem cMain_mfm_fX {N : Nat} (noiseSeed : Uint) (i : Fin N) :
    (cMain N ℝ G noiseSeed).mfm.fX i =
      activation |-1 - ((cMain N ℝ G noiseSeed).center i).x| / 2 := by
  have h1 : (-1.0 : ℝ) = -1 := by norm_num
  rw [mfm_eq]
  simp only [withAxes, Axis.fire, axisX, centerX, cMain_fX, cMain_pos, tauM_eq, h1]
  simp only [Pi.zero_apply]
  ring

theorem cMain_left_center (noiseSeed : Uint) :
    (cMain nMFM ℝ G noiseSeed).center ⟨34, by decide⟩ = centerOf 256 3 := by
  have hid : populationId 34 = (256, 3) := by decide
  have hcenter := cMain_center (G := G) noiseSeed ⟨34, by decide⟩
  rw [if_pos (by decide), hid] at hcenter
  exact hcenter

/-- The population at the left edge, where the ball starts, fires at the first call. -/
theorem cMain_mfm_left_fires (noiseSeed : Uint) :
    (cMain nMFM ℝ G noiseSeed).mfm.fX ⟨34, by decide⟩ ≠ 0 := by
  have hpos := activation_256_3_pos
  rw [cMain_mfm_fX, cMain_left_center]
  positivity

end State

end BallController.Sequential
