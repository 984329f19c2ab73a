import Mathlib

/-! Texts that can be read in one way only. A printer is self-delimiting when the
printed value can be told from whatever follows it; such printers compose, a
delimiter makes one of a printer that avoids it, and a sequence of printed values
can then be read back from its text alone. -/

namespace BallController.Lib

variable {α β : Type}

/-- Equal texts begin with the same value and go on equally. -/
def SelfDelimiting (f : α → String) : Prop :=
  ∀ ⦃a b : α⦄ ⦃r s : List Char⦄, (f a).toList ++ r = (f b).toList ++ s → a = b ∧ r = s

/-- The first occurrence of `d` cuts a text in one way. -/
theorem append_cons_cancel {d : Char} : ∀ {l m r s : List Char}, d ∉ l → d ∉ m →
    l ++ d :: r = m ++ d :: s → l = m ∧ r = s
  | [], [], _, _, _, _, h => ⟨rfl, (List.cons.inj h).2⟩
  | [], c :: m, _, _, _, hm, h => absurd ((List.cons.inj h).1 ▸ List.mem_cons_self) hm
  | c :: l, [], _, _, hl, _, h => absurd ((List.cons.inj h).1 ▸ List.mem_cons_self) hl
  | c :: l, c' :: m, _, _, hl, hm, h => by
    obtain ⟨rfl, htail⟩ := List.cons.inj h
    obtain ⟨rfl, hrs⟩ := append_cons_cancel (mt (List.mem_cons_of_mem c) hl)
      (mt (List.mem_cons_of_mem c) hm) htail
    exact ⟨rfl, hrs⟩

namespace SelfDelimiting

variable {f : α → String} {g : β → String}

/-- A printer that avoids the first character of the text after it. -/
theorem delimited {d : Char} {t : String} {l : List Char} (ht : t.toList = d :: l)
    (hf : Function.Injective f) (hd : ∀ a, d ∉ (f a).toList) : SelfDelimiting fun a => f a ++ t := by
  intro a b r s h
  rw [String.toList_append, String.toList_append, ht, List.append_assoc, List.append_assoc,
    List.cons_append, List.cons_append] at h
  obtain ⟨hab, hrs⟩ := append_cons_cancel (hd a) (hd b) h
  exact ⟨hf (String.toList_inj.mp hab), List.append_cancel_left hrs⟩

/-- One printed value after another. -/
theorem pair (hf : SelfDelimiting f) (hg : SelfDelimiting g) :
    SelfDelimiting fun p : α × β => f p.1 ++ g p.2 := by
  intro a b r s h
  rw [String.toList_append, String.toList_append, List.append_assoc, List.append_assoc] at h
  obtain ⟨h1, h⟩ := hf h
  obtain ⟨h2, hrs⟩ := hg h
  exact ⟨Prod.ext h1 h2, hrs⟩

theorem comp {e : β → α} (hf : SelfDelimiting f) (he : Function.Injective e) :
    SelfDelimiting fun b => f (e b) := by
  intro a b r s h
  obtain ⟨hab, hrs⟩ := hf h
  exact ⟨he hab, hrs⟩

/-- A text of printed values comes from one sequence of them. -/
theorem join_injective (hf : SelfDelimiting f) (hne : ∀ a, f a ≠ "") :
    Function.Injective fun as : List α => String.join (as.map f) := by
  have hlist : ∀ as bs : List α, as.flatMap (fun a => (f a).toList) = bs.flatMap (fun a => (f a).toList) →
      as = bs := by
    intro as
    induction as with
    | nil =>
      intro bs h
      cases bs with
      | nil => rfl
      | cons b bs => exact absurd (List.append_eq_nil_iff.mp h.symm).1 (by simpa using hne b)
    | cons a as ih =>
      intro bs h
      cases bs with
      | nil => exact absurd (List.append_eq_nil_iff.mp h).1 (by simpa using hne a)
      | cons b bs =>
        obtain ⟨hab, hrest⟩ := hf h
        rw [hab, ih bs hrest]
  intro as bs h
  have h' := congrArg String.toList h
  simp only [String.toList_join, List.flatMap_map] at h'
  exact hlist as bs h'

end SelfDelimiting

/-! ## Decimal numbers -/

theorem mem_toString_nat {n : ℕ} {c : Char} (h : c ∈ (toString n).toList) : c.isDigit := by
  rw [Nat.toString_eq_repr, Nat.toList_repr] at h
  exact Nat.isDigit_of_mem_toDigits (by decide) (by decide) h

theorem toString_nat_injective : Function.Injective fun n : ℕ => toString n := by
  intro m n h
  have hd := congrArg (fun t : String => Nat.ofDigitChars 10 t.toList 0) h
  simpa only [Nat.toString_eq_repr, Nat.toList_repr, Nat.ofDigitChars_ten_toDigits] using hd

/-- A minus sign, if any, and the digits of the magnitude. -/
theorem toList_toString_int (i : ℤ) : (toString i).toList =
    if 0 ≤ i then (toString i.natAbs).toList else '-' :: (toString i.natAbs).toList := by
  rw [Int.toString_eq_repr, Int.repr_eq_if]
  split
  · next h => rw [Nat.toString_eq_repr, show i.toNat = i.natAbs by omega]
  · next h =>
    rw [Nat.toString_eq_repr, show (-i).toNat = i.natAbs by omega, String.toList_append]
    rfl

theorem mem_toString_int {i : ℤ} {c : Char} (h : c ∈ (toString i).toList) : c = '-' ∨ c.isDigit := by
  rw [toList_toString_int] at h
  split at h
  · exact Or.inr (mem_toString_nat h)
  · rcases List.mem_cons.mp h with h | h
    · exact Or.inl h
    · exact Or.inr (mem_toString_nat h)

theorem toString_int_injective : Function.Injective fun i : ℤ => toString i := by
  intro i j h
  have hminus : ∀ (n : ℕ) (l : List Char), (toString n).toList ≠ '-' :: l := by
    intro n l hl
    have := mem_toString_nat (n := n) (c := '-') (by rw [hl]; exact List.mem_cons_self)
    revert this
    decide
  have hl := congrArg String.toList h
  simp only [toList_toString_int] at hl
  split at hl <;> split at hl
  · have := toString_nat_injective (String.toList_inj.mp hl)
    omega
  · exact absurd hl (hminus _ _)
  · exact absurd hl.symm (hminus _ _)
  · have := toString_nat_injective (String.toList_inj.mp (List.cons.inj hl).2)
    omega

end BallController.Lib
