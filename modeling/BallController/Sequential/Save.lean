import BallController.Lib.Text
import BallController.Sequential.Stop

/-! `save_`. When a run stops it prints its weights as assignments in C, in
thousandths, to be pasted into `load_`. The text can be read in one way only, so
it says what the thousandths of every weight were. -/

namespace BallController.Sequential
open Lib Spin1Math

variable {N : Nat} {α G : Type}

/-! ## Printing -/

section Printing

variable [Field α] [LinearOrder α] [FloorRing α] [Libm α] [Prng G]

/-- `(int)(w*1000)`. -/
def thousandths (w : α) : Int := (toUint (trunc (w * 1000.0))).toInt

/-- One of the four loops of `save_`. -/
def printWeights (name : String) (w : CArray N α) : List String :=
  (List.finRange N).map fun i =>
    name ++ "[" ++ toString i.val ++ "] = " ++ toString (thousandths (w i)) ++ ".0/1000.0;\n"

/-- `save_`: what each call of `io_printf` prints. -/
def State.save (s : State N α G) : List String :=
  printWeights "w_V_x_array" s.wVXArray ++ printWeights "w_V_y_array" s.wVYArray ++
    printWeights "w_A_theta_array" s.wAThetaArray ++ printWeights "w_A_psi_array" s.wAPsiArray

/-- What an event prints; `update` calls `save_` where it stops the timer. -/
def printed (s : State N α G) : Event → List String
  | .camera _ _ => []
  | .tick simTime =>
    if s.timerOn then
      let s := if s.state = .unbalanced then s.learn simTime else s
      if s.state = .balanced ∨ simTime % saveStep = 0 then s.save else []
    else []

/-- What a run prints, from the first line of `c_main` on. -/
def output (N : Nat) (α G : Type) [Field α] [LinearOrder α] [FloorRing α] [Libm α] [Prng G]
    (noiseSeed : Uint) (evs : List Event) : List String :=
  "Starting balancing...\n" :: emitted step printed (State.cMain N α G noiseSeed) evs

end Printing

/-! ## The text as assignments -/

inductive WeightArray where
  | wVX
  | wVY
  | wATheta
  | wAPsi
deriving DecidableEq

namespace WeightArray

def name : WeightArray → String
  | wVX => "w_V_x_array"
  | wVY => "w_V_y_array"
  | wATheta => "w_A_theta_array"
  | wAPsi => "w_A_psi_array"

def get (s : State N α G) : WeightArray → CArray N α
  | wVX => s.wVXArray
  | wVY => s.wVYArray
  | wATheta => s.wAThetaArray
  | wAPsi => s.wAPsiArray

theorem name_injective : Function.Injective name := by
  intro a b h
  cases a <;> cases b <;> first | rfl | exact absurd h (by decide)

theorem bracket_notMem_name (a : WeightArray) : '[' ∉ a.name.toList := by
  cases a <;> decide

/-- The arrays in the order of `save_`. -/
def all : List WeightArray := [wVX, wVY, wATheta, wAPsi]

end WeightArray

/-- A statement `array[index] = thousandths.0/1000.0;`. -/
@[ext]
structure Assignment where
  array : WeightArray
  index : Nat
  thousandths : Int

namespace Assignment

def text (c : Assignment) : String :=
  c.array.name ++ "[" ++ toString c.index ++ "] = " ++ toString c.thousandths ++ ".0/1000.0;\n"

example : text ⟨.wVX, 12, -146⟩ = "w_V_x_array[12] = -146.0/1000.0;\n" := by decide

/-- The brackets and the point delimit the name and the numbers. -/
theorem text_selfDelimiting : SelfDelimiting text := by
  have hname : SelfDelimiting fun a : WeightArray => a.name ++ "[" :=
    SelfDelimiting.delimited rfl WeightArray.name_injective WeightArray.bracket_notMem_name
  have hindex : SelfDelimiting fun n : ℕ => toString n ++ "] = " :=
    SelfDelimiting.delimited rfl toString_nat_injective fun n h =>
      absurd (mem_toString_nat h) (by decide)
  have hvalue : SelfDelimiting fun i : ℤ => toString i ++ ".0/1000.0;\n" :=
    SelfDelimiting.delimited rfl toString_int_injective fun i h =>
      absurd (mem_toString_int h) (by decide)
  have h := (hname.pair (hindex.pair hvalue)).comp (β := Assignment)
    (e := fun c => (c.array, c.index, c.thousandths)) ?_
  · simp only [← String.append_assoc] at h
    exact h
  · intro c d hcd
    simp only [Prod.mk.injEq] at hcd
    exact Assignment.ext hcd.1 hcd.2.1 hcd.2.2

theorem text_ne_empty (c : Assignment) : c.text ≠ "" := by
  simp [text]

end Assignment

/-! ## Reading back -/

/-- What `save_` prints of one array. -/
noncomputable def assignments (s : State N ℝ G) (a : WeightArray) : List Assignment :=
  (List.finRange N).map fun i : Fin N => ⟨a, i.val, thousandths (a.get s i)⟩

theorem save_eq (s : State N ℝ G) :
    s.save = (WeightArray.all.flatMap (assignments s)).map Assignment.text := by
  have harray : ∀ a : WeightArray, (assignments s a).map Assignment.text =
      printWeights a.name (a.get s) := fun a => List.map_map ..
  simp only [WeightArray.all, List.flatMap_cons, List.flatMap_nil, List.append_nil, List.map_append,
    harray, ← List.append_assoc]
  rfl

theorem join_save_iff (s : State N ℝ G) (body : List Assignment) :
    String.join (body.map Assignment.text) = String.join s.save ↔
      body = WeightArray.all.flatMap (assignments s) := by
  rw [save_eq]
  exact (Assignment.text_selfDelimiting.join_injective Assignment.text_ne_empty).eq_iff

theorem WeightArray.mem_all (a : WeightArray) : a ∈ all := by
  cases a <;> decide

/-- The assignment of a weight is the one for its place. -/
theorem mem_assignments_iff {s : State N ℝ G} {a b : WeightArray} {i : Fin N} {v : Int} :
    ⟨a, i, v⟩ ∈ assignments s b ↔ a = b ∧ v = thousandths (a.get s i) := by
  simp only [assignments, List.mem_map, List.mem_finRange, true_and, Assignment.mk.injEq]
  constructor
  · rintro ⟨j, rfl, hj, rfl⟩
    obtain rfl := Fin.ext hj
    exact ⟨rfl, rfl⟩
  · rintro ⟨rfl, rfl⟩
    exact ⟨i, rfl, rfl, rfl⟩

/-- Two programs print the same text exactly when all weights agree in thousandths. -/
theorem join_save_congr (s s' : State N ℝ G) : String.join s'.save = String.join s.save ↔
    ∀ (a : WeightArray) i, thousandths (a.get s' i) = thousandths (a.get s i) := by
  rw [save_eq s', join_save_iff]
  constructor
  · intro h a i
    have hmem : (⟨a, i, thousandths (a.get s' i)⟩ : Assignment) ∈
        WeightArray.all.flatMap (assignments s') :=
      List.mem_flatMap.mpr ⟨a, a.mem_all, mem_assignments_iff.mpr ⟨rfl, rfl⟩⟩
    rw [h] at hmem
    obtain ⟨b, -, hb⟩ := List.mem_flatMap.mp hmem
    exact (mem_assignments_iff.mp hb).2
  · intro h
    have hsame : assignments s' = assignments s := by
      funext a
      simp only [assignments, h]
    rw [hsame]

/-! ## The output of a run -/

variable [Prng G]

/-- A stopped program prints nothing and keeps its weights; a running one prints
them when it stops. -/
theorem printed_step (s : State N ℝ G) (e : Event) :
    (if s.timerOn then [] else s.save) ++ printed s e =
      if (step s e).timerOn then [] else (step s e).save := by
  cases e with
  | camera key now =>
    have hsave : (step s (.camera key now)).save = s.save := by
      rw [step, State.cameraEvent]
      split <;> rfl
    have htimer : (step s (.camera key now)).timerOn = s.timerOn := by
      rw [step, State.cameraEvent]
      split <;> rfl
    rw [hsave, htimer, printed, List.append_nil]
  | tick t =>
    cases ht : s.timerOn with
    | false => simp [step, printed, ht]
    | true =>
      have hon : (if s.state = .unbalanced then s.learn t else s).timerOn = true := by
        split
        · rw [State.learn_timerOn, ht]
        · exact ht
      simp only [step, printed, ht, if_true, State.update, List.nil_append]
      generalize (if s.state = .unbalanced then s.learn t else s) = u at hon ⊢
      split
      · rfl
      · rfl

/-- A run prints its weights when it stops, and never changes them after. -/
theorem output_eq (noiseSeed : Uint) (evs : List Event) : output N ℝ G noiseSeed evs =
    "Starting balancing...\n" :: if (run N ℝ G noiseSeed evs).timerOn then []
      else (run N ℝ G noiseSeed evs).save := by
  rw [output]
  congr 1
  induction evs using List.reverseRecOn with
  | nil => rfl
  | append_singleton evs e ih =>
    have hrun : run N ℝ G noiseSeed (evs ++ [e]) = step (run N ℝ G noiseSeed evs) e :=
      exec_concat step _ _ _
    rw [emitted_concat, ih, hrun]
    exact printed_step (run N ℝ G noiseSeed evs) e

end BallController.Sequential
