import BallController.Sequential.Init

/-! The array accesses of a run. Loops and ring cursors stay inside their
arrays; the one access outside is the first one of `init_network`, which places
the population of core 0 of chip 0 at the index `0 - 1` of an unsigned number. -/

namespace BallController.Sequential
open Lib Spin1Math

/-- The arrays of the program. -/
inductive ArrayName where
  | center
  | fX
  | fY
  | eX
  | eY
  | wVX
  | wVY
  | wATheta
  | wAPsi
  | xBuffer
  | yBuffer
  | posBuffer
  | speedBuffer
deriving DecidableEq, Repr

def ArrayName.size : ArrayName → Nat
  | .xBuffer | .yBuffer => 16
  | .posBuffer | .speedBuffer => 4
  | _ => nMFM

structure Access where
  array : ArrayName
  index : Nat
deriving DecidableEq, Repr

def Access.InBounds (a : Access) : Prop := a.index < a.array.size

/-- A loop over `i` below `n` that uses these arrays at `i`. -/
def loopAccesses (n : Nat) (arrays : List ArrayName) : List Access :=
  (List.range n).flatMap fun i => arrays.map fun a => ⟨a, i⟩

/-- Both fields of the centre are one access. -/
def initMFMAccesses (p : Uint × Uint) : List Access := [⟨.center, initIndex p⟩]

def initParamsAccesses : List Access :=
  loopAccesses nMFM [.wVX, .wVY, .wATheta, .wAPsi] ++ loopAccesses 4 [.posBuffer, .speedBuffer]

def initNetworkAccesses : List Access :=
  State.initPairs.flatMap initMFMAccesses ++ initParamsAccesses

def mfmAccesses : List Access := loopAccesses nMFM [.center, .fX, .fY]

def updateAAccesses : List Access := loopAccesses nMFM [.wATheta, .fX, .wAPsi, .fY]

def moveAccesses : List Access := loopAccesses nMFM [.wATheta, .fX, .wAPsi, .fY]

def updateVAccesses : List Access := loopAccesses nMFM [.eX, .fX, .wVX, .eY, .fY, .wVY]

def saveAccesses : List Access :=
  loopAccesses nMFM [.wVX] ++ loopAccesses nMFM [.wVY] ++ loopAccesses nMFM [.wATheta] ++
    loopAccesses nMFM [.wAPsi]

section Defs

variable {N : Nat} {α G : Type} [Field α] [LinearOrder α] [FloorRing α] [Libm α] [Prng G]

/-- `average_params`, then the loops of `V_x` and `V_y`. -/
def updateErrorAccesses (s : State N α G) : List Access :=
  [⟨.posBuffer, s.ball.avgIndex⟩, ⟨.speedBuffer, s.ball.avgIndex⟩] ++
    loopAccesses nMFM [.wVX, .fX] ++ loopAccesses nMFM [.wVY, .fY]

def learnAccesses (simTime : Nat) (s : State N α G) : List Access :=
  mfmAccesses ++ updateAAccesses ++ moveAccesses ++ updateErrorAccesses (s.beforeError simTime) ++
    updateVAccesses

def computePosAccesses (xCur yCur : Int) (s : State N α G) : List Access :=
  if s.tracker.Accepts α xCur yCur then
    [⟨.xBuffer, s.tracker.currIndex⟩, ⟨.yBuffer, s.tracker.currIndex⟩]
  else []

/-- The accesses of an event. -/
def accesses (s : State N α G) : Event → List Access
  | .camera key now =>
    if polOfKey key = 1 ∧ now ≠ 0 then computePosAccesses (xOfKey key) (yOfKey key) s else []
  | .tick simTime =>
    if s.timerOn then
      (if s.state = .unbalanced then learnAccesses simTime s else []) ++
        (if (s.update simTime).state = .saved then saveAccesses else [])
    else []

/-- The accesses of a run, from `init_network` on. -/
def runAccesses (α G : Type) [Field α] [LinearOrder α] [FloorRing α] [Libm α] [Prng G]
    (noiseSeed : Uint) (evs : List Event) : List Access :=
  initNetworkAccesses ++ emitted step accesses (State.cMain nMFM α G noiseSeed) evs

end Defs

variable {G : Type} [Prng G]

/-! ## Loops and cursors -/

theorem loopAccesses_inBounds {n : Nat} {arrays : List ArrayName} (h : ∀ a ∈ arrays, n ≤ a.size) :
    ∀ a ∈ loopAccesses n arrays, a.InBounds := by
  intro a ha
  obtain ⟨i, hi, ha⟩ := List.mem_flatMap.mp ha
  obtain ⟨b, hb, rfl⟩ := List.mem_map.mp ha
  exact (List.mem_range.mp hi).trans_le (h b hb)

/-- The two ring cursors point into their rings. -/
structure CursorsOk {N : Nat} (s : State N ℝ G) : Prop where
  curr_lt : s.tracker.currIndex < 16
  avg_lt : s.ball.avgIndex < 4

theorem cursorsOk_cMain (noiseSeed : Uint) : CursorsOk (State.cMain nMFM ℝ G noiseSeed) := by
  constructor
  · rw [State.cMain_tracker]
    decide
  · rw [State.cMain_avgIndex]
    decide

theorem cursorsOk_step {N : Nat} (s : State N ℝ G) (e : Event) (h : CursorsOk s) :
    CursorsOk (step s e) := by
  cases e with
  | camera key now =>
    simp only [step, State.cameraEvent]
    split
    · refine ⟨?_, h.avg_lt⟩
      simp only [State.computePos, Tracker.computePos]
      split
      · exact Nat.mod_lt _ (by decide)
      · exact h.curr_lt
    · exact h
  | tick t =>
    simp only [step]
    split
    · constructor
      · rw [State.update_frame (fun s => s.tracker.currIndex) (fun _ => rfl)]
        split
        · rw [State.learn_tracker]
          exact h.curr_lt
        · exact h.curr_lt
      · rw [State.update_frame (fun s => s.ball.avgIndex) (fun _ => rfl)]
        split
        · rw [State.learn_ball, BallParams.normalizeBallParams_avgIndex]
          exact Nat.mod_lt _ (by decide)
        · exact h.avg_lt
    · exact h

theorem learnAccesses_inBounds {N : Nat} {s : State N ℝ G} (h : CursorsOk s) (t : Nat) :
    ∀ a ∈ learnAccesses t s, a.InBounds := by
  have havg : (s.beforeError t).ball.avgIndex < 4 := by
    rw [State.beforeError_ball]
    exact h.avg_lt
  simp only [learnAccesses, updateErrorAccesses, List.forall_mem_append, List.forall_mem_cons,
    mfmAccesses, updateAAccesses, moveAccesses, updateVAccesses]
  refine ⟨⟨⟨⟨?_, ?_⟩, ?_⟩, ⟨⟨havg, havg, by simp⟩, ?_⟩, ?_⟩, ?_⟩ <;>
    exact loopAccesses_inBounds (by decide)

theorem accesses_inBounds {N : Nat} (s : State N ℝ G) (e : Event) (h : CursorsOk s) :
    ∀ a ∈ accesses s e, a.InBounds := by
  cases e with
  | camera key now =>
    simp only [accesses, computePosAccesses]
    split_ifs
    · simp only [List.forall_mem_cons]
      exact ⟨h.curr_lt, h.curr_lt, by simp⟩
    · simp
    · simp
  | tick t =>
    have hsave : ∀ a ∈ saveAccesses, a.InBounds := by
      simp only [saveAccesses, List.forall_mem_append]
      refine ⟨⟨⟨?_, ?_⟩, ?_⟩, ?_⟩ <;> exact loopAccesses_inBounds (by decide)
    simp only [accesses]
    split
    · rw [List.forall_mem_append]
      constructor
      · split
        · exact learnAccesses_inBounds h t
        · simp
      · split
        · exact hsave
        · simp
    · simp

/-! ## The start -/

/-- The index of core 0 of chip 0. -/
theorem initIndex_lt_iff : ∀ p ∈ State.initPairs, initIndex p < nMFM ↔ initIndex p ≠ 2 ^ 32 - 1 :=
  forall_mem_of_all (by decide)

theorem initNetworkAccesses_inBounds :
    ∀ a ∈ initNetworkAccesses, ¬a.InBounds ↔ a = ⟨.center, 2 ^ 32 - 1⟩ := by
  simp only [initNetworkAccesses, initParamsAccesses, List.forall_mem_append]
  have hne : ∀ a : Access, a.InBounds → (¬a.InBounds ↔ a = ⟨.center, 2 ^ 32 - 1⟩) := by
    rintro a h
    refine ⟨fun hn => absurd h hn, ?_⟩
    rintro rfl
    exact absurd h (by unfold Access.InBounds; decide)
  refine ⟨?_, fun a ha => hne a (loopAccesses_inBounds (by decide) a ha),
    fun a ha => hne a (loopAccesses_inBounds (by decide) a ha)⟩
  intro a ha
  obtain ⟨p, hp, ha⟩ := List.mem_flatMap.mp ha
  obtain rfl := List.mem_singleton.mp ha
  have h := not_congr (initIndex_lt_iff p hp)
  simpa [Access.InBounds, ArrayName.size] using h

/-- How often `init_network` assigns the centre of population `i`. -/
def centerWrites (i : Nat) : Nat := (State.initPairs.map initIndex).count i

theorem centerWrites_eq : ∀ i < nMFM, centerWrites i = if i = 63 then 0 else 1 := by decide

theorem outside_mem_initNetworkAccesses : (⟨.center, 2 ^ 32 - 1⟩ : Access) ∈ initNetworkAccesses := by
  refine List.mem_append_left _ (List.mem_flatMap.mpr ⟨(0, 0), by decide, ?_⟩)
  decide

/-- In no run are all accesses in bounds, and in none is every centre assigned
once. The one access outside is that of the first pair of `init_network`, to the
index `2 ^ 32 - 1` of the centres; the one population without a centre is the
last. -/
theorem accesses_never_all_inBounds (noiseSeed : Uint) (evs : List Event) :
    ¬(∀ a ∈ runAccesses ℝ G noiseSeed evs, a.InBounds) ∧ ¬(∀ i < nMFM, centerWrites i = 1) ∧
      (∀ a ∈ runAccesses ℝ G noiseSeed evs, ¬a.InBounds ↔ a = ⟨.center, 2 ^ 32 - 1⟩) ∧
      ∀ i < nMFM, centerWrites i = if i = 63 then 0 else 1 := by
  have hout : ¬(⟨.center, 2 ^ 32 - 1⟩ : Access).InBounds := by
    unfold Access.InBounds
    decide
  have hrun : ∀ a ∈ emitted step accesses (State.cMain nMFM ℝ G noiseSeed) evs, a.InBounds :=
    forall_emitted.mpr (along_of_invariant cursorsOk_step accesses_inBounds
      (cursorsOk_cMain noiseSeed) evs)
  refine ⟨fun h => hout (h _ (List.mem_append_left _ outside_mem_initNetworkAccesses)),
    fun h => absurd (h 63 (by decide)) (by decide), ?_, centerWrites_eq⟩
  rw [runAccesses, List.forall_mem_append]
  refine ⟨initNetworkAccesses_inBounds, fun a ha => ⟨fun hn => absurd (hrun a ha) hn, ?_⟩⟩
  rintro rfl
  exact absurd (hrun _ ha) hout

/-- Already the start, before any event, leaves the array of the centres. -/
theorem start_accesses_outside :
    ¬(∀ a ∈ runAccesses ℝ MuslRand 0 [], a.InBounds) ∧ centerWrites 63 = 0 := by
  refine ⟨fun h => ?_, by decide⟩
  have hin := h _ (List.mem_append_left _ outside_mem_initNetworkAccesses)
  unfold Access.InBounds at hin
  exact absurd hin (by decide)

end BallController.Sequential
