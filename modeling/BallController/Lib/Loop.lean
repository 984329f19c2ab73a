import Mathlib

/-! Fixed-size C arrays and counting loops. An array of `n` cells is a function
on `Fin n`; a write past the end changes no cell of it, and what else it changes
is not the array's to say. A counting loop is a left
fold over the indices in order. The loop rules turn a fold into what it
computes: an element-wise update, or a sum. -/

namespace BallController.Lib

abbrev CArray (n : Nat) (β : Type) := Fin n → β

namespace CArray

variable {n : Nat} {β γ : Type}

/-- The cell at `i`; a read past the end has no meaning in C and gives `0`. -/
def read [Zero β] (a : CArray n β) (i : Nat) : β := if h : i < n then a ⟨i, h⟩ else 0

/-- The cell at `i` becomes `v`; a write past the end, which C leaves undefined,
changes no cell. -/
def write (a : CArray n β) (i : Nat) (v : β) : CArray n β := fun j => if j.val = i then v else a j

@[simp] theorem read_of_lt [Zero β] (a : CArray n β) {i : Nat} (h : i < n) :
    a.read i = a ⟨i, h⟩ := dif_pos h

@[simp] theorem write_apply (a : CArray n β) (i : Nat) (v : β) (j : Fin n) :
    a.write i v j = if j.val = i then v else a j := rfl

theorem write_self (a : CArray n β) (i : Fin n) (v : β) : a.write i v i = v := if_pos rfl

theorem write_comm {i i' : Nat} (h : i ≠ i') (a : CArray n β) (v v' : β) :
    (a.write i v).write i' v' = (a.write i' v').write i v := by
  funext j
  simp only [write_apply]
  by_cases hi : j.val = i
  · rw [if_pos hi, if_pos hi, if_neg fun hi' => h (hi.symm.trans hi')]
  · rw [if_neg hi, if_neg hi]

/-- Writing commutes with a projection of the cells. -/
theorem map_write (g : β → γ) (a : CArray n β) (i : Nat) (v : β) :
    (fun j => g (a.write i v j)) = CArray.write (fun j => g (a j)) i (g v) := by
  funext j
  simp only [write_apply, apply_ite g]

end CArray

section Loops

variable {n : Nat} {σ τ β : Type}

/-- `for (i = 0; i < n; i++) body`. -/
def forLoop (n : Nat) (body : σ → Fin n → σ) (s : σ) : σ := (List.finRange n).foldl body s

/-- Loop rule: what every iteration keeps, the loop keeps. -/
theorem forLoop_induction {P : σ → Prop} {body : σ → Fin n → σ} {s : σ} (h0 : P s)
    (hb : ∀ s i, P s → P (body s i)) : P (forLoop n body s) := by
  unfold forLoop
  generalize List.finRange n = l
  induction l generalizing s with
  | nil => exact h0
  | cons i l ih => exact ih (hb s i h0)

/-- A projection that no iteration changes is not changed by the loop. -/
theorem forLoop_frame {f : σ → τ} {body : σ → Fin n → σ} (hb : ∀ s i, f (body s i) = f s) (s : σ) :
    f (forLoop n body s) = f s :=
  forLoop_induction (P := fun t => f t = f s) rfl fun t i ht => (hb t i).trans ht

/-- A loop on the image of `f` is the image of the loop that it simulates. -/
theorem forLoop_hom (f : τ → σ) {g : τ → Fin n → τ} {body : σ → Fin n → σ}
    (h : ∀ t i, body (f t) i = f (g t i)) (t : τ) :
    forLoop n body (f t) = f (forLoop n g t) := by
  unfold forLoop
  generalize List.finRange n = l
  induction l generalizing t with
  | nil => rfl
  | cons i l ih => rw [List.foldl_cons, List.foldl_cons, h, ih]

private theorem foldl_write (f : Fin n → β → β) :
    ∀ (l : List (Fin n)) (a : CArray n β), l.Nodup →
      l.foldl (fun a i => a.write i (f i (a i))) a = fun i => if i ∈ l then f i (a i) else a i
  | [], _, _ => by simp
  | i :: l, a, hl => by
    obtain ⟨hi, hl⟩ := List.nodup_cons.mp hl
    rw [List.foldl_cons, foldl_write f l _ hl]
    funext j
    by_cases hj : j = i
    · subst hj; simp [hi]
    · have hv : j.val ≠ i.val := fun h => hj (Fin.ext h)
      simp [hj, hv]

/-- A loop whose iteration `i` rewrites cell `i` from its own old content is
an element-wise update. -/
theorem forLoop_write (f : Fin n → β → β) (a : CArray n β) :
    forLoop n (fun a i => a.write i (f i (a i))) a = fun i => f i (a i) := by
  unfold forLoop
  rw [foldl_write f _ a (List.nodup_finRange n)]
  simp

/-- A loop over a record whose cells at `i` are the image of one cell `t i`:
the element-wise update of these cells. -/
theorem forLoop_cells (embed : CArray n β → σ) {body : σ → Fin n → σ} (f : Fin n → β → β)
    (h : ∀ t i, body (embed t) i = embed (t.write i (f i (t i)))) (t : CArray n β) :
    forLoop n body (embed t) = embed fun i => f i (t i) := by
  rw [forLoop_hom embed h, forLoop_write]

/-- A loop that writes the value `v p` to the cell `key p` leaves every cell that
is no key alone, ... -/
theorem foldl_write_of_forall_ne {γ : Type} (key : γ → Nat) (v : γ → β) {l : List γ} (a : CArray n β)
    {i : Fin n} (h : ∀ p ∈ l, key p ≠ i) :
    l.foldl (fun a p => CArray.write a (key p) (v p)) a i = a i := by
  induction l generalizing a with
  | nil => rfl
  | cons p l ih =>
    obtain ⟨hp, hl⟩ := List.forall_mem_cons.mp h
    rw [List.foldl_cons, ih _ hl, CArray.write_apply, if_neg hp.symm]

/-- ... and the others with their value, when the keys differ. -/
theorem foldl_write_of_mem {γ : Type} (key : γ → Nat) (v : γ → β) {l : List γ} (a : CArray n β)
    (hl : (l.map key).Nodup) {p : γ} (hp : p ∈ l) {i : Fin n} (hi : key p = i) :
    l.foldl (fun a p => CArray.write a (key p) (v p)) a i = v p := by
  induction l generalizing a with
  | nil => cases hp
  | cons q l ih =>
    obtain ⟨hq, hl⟩ := List.nodup_cons.mp hl
    rw [List.foldl_cons]
    rcases List.mem_cons.mp hp with rfl | hp
    · have hne : ∀ r ∈ l, key r ≠ i := fun r hr he =>
        hq (List.mem_map.mpr ⟨r, hr, he.trans hi.symm⟩)
      rw [foldl_write_of_forall_ne key v _ hne, CArray.write_apply, if_pos hi.symm]
    · exact ih _ hl hp

/-- An accumulator loop computes a sum. -/
theorem forLoop_add [AddCommMonoid β] (f : Fin n → β) :
    forLoop n (fun v i => v + f i) 0 = ∑ i, f i := by
  unfold forLoop
  rw [Fin.sum_univ_def, List.sum_eq_foldl, List.foldl_map]

/-- Two accumulators in one loop are two loops. -/
theorem forLoop_prod (f : σ → Fin n → σ) (g : τ → Fin n → τ) (s : σ) (t : τ) :
    forLoop n (fun p i => (f p.1 i, g p.2 i)) (s, t) = (forLoop n f s, forLoop n g t) := by
  unfold forLoop
  generalize List.finRange n = l
  induction l generalizing s t with
  | nil => rfl
  | cons i l ih => exact ih (f s i) (g t i)

end Loops

/-- A property of all members of a list, by running through it. -/
theorem forall_mem_of_all {β : Type} {l : List β} {P : β → Prop} [DecidablePred P]
    (h : l.all (fun b => decide (P b)) = true) : ∀ b ∈ l, P b :=
  fun b hb => of_decide_eq_true (List.all_eq_true.mp h b hb)

end BallController.Lib
