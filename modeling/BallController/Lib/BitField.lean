import Mathlib

/-! Bit fields of a machine word. A word is packed by OR-ing shifted values and
unpacked by shifting and masking. Reading distributes over OR; a field reads
back the value put into it and reads zero from every field disjoint from it. -/

namespace BallController.Lib

/-- `width` bits from bit `shift` on. -/
structure BitField where
  shift : Nat
  width : Nat
deriving DecidableEq, Repr

namespace BitField

variable {w : Nat}

def put (f : BitField) (v : BitVec w) : BitVec w := v <<< f.shift

def get (f : BitField) (x : BitVec w) : BitVec w := (x >>> f.shift) &&& BitVec.ofNat w (2 ^ f.width - 1)

/-- The value needs no more bits than the field has. -/
def Fits (f : BitField) (v : BitVec w) : Prop := v.toNat < 2 ^ f.width

/-- No bit belongs to both fields. -/
def Disjoint (f g : BitField) : Prop :=
  f.shift + f.width ≤ g.shift ∨ g.shift + g.width ≤ f.shift

instance (f g : BitField) : Decidable (f.Disjoint g) :=
  inferInstanceAs (Decidable (_ ∨ _))

theorem Fits.getLsbD {f : BitField} {v : BitVec w} (h : f.Fits v) {i : Nat} (hi : f.width ≤ i) :
    v.getLsbD i = false :=
  Nat.testBit_lt_two_pow (h.trans_le (Nat.pow_le_pow_right (by decide) hi))

theorem getLsbD_get (f : BitField) (x : BitVec w) (i : Nat) :
    (f.get x).getLsbD i = (decide (i < w) && decide (i < f.width) && x.getLsbD (f.shift + i)) := by
  simp only [get, BitVec.getLsbD_and, BitVec.getLsbD_ushiftRight, BitVec.getLsbD_ofNat,
    Nat.testBit_two_pow_sub_one]
  cases decide (i < w) <;> cases decide (i < f.width) <;> simp

@[simp] theorem get_or (f : BitField) (x y : BitVec w) : f.get (x ||| y) = f.get x ||| f.get y := by
  apply BitVec.eq_of_getLsbD_eq
  intro i hi
  simp only [getLsbD_get, BitVec.getLsbD_or]
  cases decide (i < f.width) <;> simp [hi]

theorem get_put_self {f : BitField} {v : BitVec w} (hv : f.Fits v) (hf : f.shift + f.width ≤ w) :
    f.get (f.put v) = v := by
  apply BitVec.eq_of_getLsbD_eq
  intro i hi
  simp only [getLsbD_get, put, BitVec.getLsbD_shiftLeft]
  by_cases h : i < f.width
  · have h1 : f.shift + i < w := by omega
    simp [hi, h, h1]
  · simp [h, hv.getLsbD (i := i) (by omega)]

theorem get_put_disjoint {f g : BitField} {v : BitVec w} (h : f.Disjoint g) (hv : g.Fits v) :
    f.get (g.put v) = 0#w := by
  apply BitVec.eq_of_getLsbD_eq
  intro i hi
  simp only [getLsbD_get, put, BitVec.getLsbD_shiftLeft]
  by_cases hw : i < f.width
  · rcases h with h | h
    · simp [show f.shift + i < g.shift by omega]
    · simp [hv.getLsbD (i := f.shift + i - g.shift) (by omega)]
  · simp [hw]

/-- A field at bit 0 is a mask, a field up to the last bit is a shift. -/
theorem get_bottom {f : BitField} (h : f.shift = 0) (x : BitVec w) :
    f.get x = x &&& BitVec.ofNat w (2 ^ f.width - 1) := by
  simp [get, h]

theorem get_top {f : BitField} (h : w ≤ f.shift + f.width) (x : BitVec w) :
    f.get x = x >>> f.shift := by
  apply BitVec.eq_of_getLsbD_eq
  intro i hi
  simp only [getLsbD_get, BitVec.getLsbD_ushiftRight, hi]
  by_cases hw : i < f.width
  · simp [hw]
  · simp [hw, BitVec.getLsbD_of_ge x (f.shift + i) (by omega)]

/-- Masking a field in place is reading it and putting it back. -/
theorem and_put_mask (f : BitField) (x : BitVec w) :
    x &&& f.put (BitVec.ofNat w (2 ^ f.width - 1)) = f.put (f.get x) := by
  apply BitVec.eq_of_getLsbD_eq
  intro i hi
  simp only [put, BitVec.getLsbD_and, BitVec.getLsbD_shiftLeft, getLsbD_get, BitVec.getLsbD_ofNat,
    Nat.testBit_two_pow_sub_one, hi]
  by_cases h : i < f.shift
  · simp [h]
  · have hw : i - f.shift < w := by omega
    simp [h, hw, show f.shift + (i - f.shift) = i by omega, Bool.and_comm]

/-- A mask that leaves the field out hides what is put into it. -/
theorem put_and_eq_zero {f : BitField} {v m : BitVec w} (hv : f.Fits v) (hf : f.shift + f.width ≤ w)
    (hm : f.put (BitVec.ofNat w (2 ^ f.width - 1)) &&& m = 0#w) : f.put v &&& m = 0#w := by
  have hself := and_put_mask f (f.put v)
  rw [get_put_self hv hf] at hself
  rw [← hself, BitVec.and_assoc, hm, BitVec.and_zero]

/-! ## Packed words -/

theorem Disjoint.symm {f g : BitField} (h : f.Disjoint g) : g.Disjoint f := Or.symm h

/-- The OR of all fields with their values. -/
def pack : List (BitField × BitVec w) → BitVec w
  | [] => 0#w
  | p :: l => p.1.put p.2 ||| pack l

theorem get_pack_disjoint {f : BitField} {l : List (BitField × BitVec w)}
    (hd : ∀ p ∈ l, f.Disjoint p.1) (hv : ∀ p ∈ l, p.1.Fits p.2) : f.get (pack l) = 0#w := by
  induction l with
  | nil => simp [pack, get]
  | cons p l ih =>
    obtain ⟨hp, hd⟩ := List.forall_mem_cons.mp hd
    obtain ⟨hf, hv⟩ := List.forall_mem_cons.mp hv
    rw [pack, get_or, get_put_disjoint hp hf, ih hd hv, BitVec.or_zero]

/-- Every field of a word packed from disjoint fields reads back its value. -/
theorem get_pack {l : List (BitField × BitVec w)} (hd : (l.map Prod.fst).Pairwise Disjoint)
    (hw : ∀ f ∈ l.map Prod.fst, f.shift + f.width ≤ w) (hv : ∀ p ∈ l, p.1.Fits p.2)
    {p : BitField × BitVec w} (hp : p ∈ l) : p.1.get (pack l) = p.2 := by
  induction l with
  | nil => cases hp
  | cons q l ih =>
    obtain ⟨hq, hdl⟩ := List.pairwise_cons.mp hd
    obtain ⟨hqw, hwl⟩ := List.forall_mem_cons.mp hw
    obtain ⟨hqv, hvl⟩ := List.forall_mem_cons.mp hv
    have hql : ∀ r ∈ l, q.1.Disjoint r.1 := fun r hr => hq r.1 (List.mem_map_of_mem hr)
    rw [pack, get_or]
    rcases List.mem_cons.mp hp with rfl | hp
    · rw [get_put_self hqv hqw, get_pack_disjoint hql hvl, BitVec.or_zero]
    · rw [get_put_disjoint (hql p hp).symm hqv, ih hdl hwl hvl hp, BitVec.zero_or]

end BitField

end BallController.Lib
