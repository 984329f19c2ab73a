import BallController.Parallel.Spec

/-! The two message formats. A sender packs disjoint fields into the key and two
halves into the payload; the receiver's shifts and masks read them back, as long
as every value fits its field. -/

namespace BallController.Parallel
open Lib Spin1Math

section Coding

variable {α : Type} [Field α] [LinearOrder α] [FloorRing α]

/-- How the senders transmit a value: one bit for the sign, ... -/
def signBit (v : α) : Uint := if v < 0 then 1 else 0

/-- ... and the magnitude in units of `1 / k`. -/
def magBits (k : Nat) (v : α) : Uint := BitVec.ofNat 32 (magnitude (k : α) v)

variable [IsStrictOrderedRing α]

theorem magBits_of_neg {k : Nat} {v : α} (h : v < 0) : toUint (trunc (-v * (k : α))) = magBits k v := by
  rw [trunc_of_neg_branch (Nat.cast_nonneg k) h, toUint_natCast, magBits]

theorem magBits_of_nonneg {k : Nat} {v : α} (h : ¬v < 0) :
    toUint (trunc (v * (k : α))) = magBits k v := by
  rw [trunc_of_nonneg_branch (Nat.cast_nonneg k) h, toUint_natCast, magBits]

/-! The branches of a sender's sign test differ in the sign bit only. -/

omit [FloorRing α] [IsStrictOrderedRing α] in
theorem or_signBit (key : Uint) (s : Nat) (v : α) :
    (if v < 0 then key ||| (1#32 <<< s) else key) = key ||| (signBit v <<< s) := by
  unfold signBit
  split
  · rfl
  · simp

theorem or_magBits (k : Nat) (payload : Uint) (s : Nat) (v : α) :
    (if v < 0 then payload ||| (toUint (trunc (-v * (k : α))) <<< s)
      else payload ||| (toUint (trunc (v * (k : α))) <<< s)) = payload ||| (magBits k v <<< s) := by
  split
  · next h => rw [magBits_of_neg h]
  · next h => rw [magBits_of_nonneg h]

theorem or_magBits_zero (k : Nat) (payload : Uint) (v : α) :
    (if v < 0 then payload ||| toUint (trunc (-v * (k : α)))
      else payload ||| toUint (trunc (v * (k : α)))) = payload ||| magBits k v := by
  split
  · next h => rw [magBits_of_neg h]
  · next h => rw [magBits_of_nonneg h]

theorem or_signMag (k : Nat) (key : Uint) (s m : Nat) (v : α) :
    (if v < 0 then key ||| (1#32 <<< s) ||| (toUint (trunc (-v * (k : α))) <<< m)
      else key ||| (toUint (trunc (v * (k : α))) <<< m)) =
      key ||| (signBit v <<< s) ||| (magBits k v <<< m) := by
  rw [← or_signBit key s v, ← or_magBits k _ m v]
  split <;> rfl

theorem or_signMag_zero (k : Nat) (key : Uint) (s : Nat) (v : α) :
    (if v < 0 then key ||| (1#32 <<< s) ||| toUint (trunc (-v * (k : α)))
      else key ||| toUint (trunc (v * (k : α)))) = key ||| (signBit v <<< s) ||| magBits k v := by
  rw [← or_signBit key s v, ← or_magBits_zero k _ v]
  split <;> rfl

theorem magBits_le {k : Nat} {v : α} (hk : k < 2 ^ 32) (h : |v| ≤ 1) :
    (magBits k v).toNat = magnitude (k : α) v ∧ (magBits k v).toNat ≤ k := by
  have hm := magnitude_le (n := k) h
  have he : (magBits k v).toNat = magnitude (k : α) v := by
    rw [magBits, BitVec.toNat_ofNat, Nat.mod_eq_of_lt (by omega)]
  exact ⟨he, by omega⟩

omit [FloorRing α] [IsStrictOrderedRing α] in
theorem signBit_le (v : α) : (signBit v).toNat ≤ 1 := by
  unfold signBit
  split <;> decide

/-- Reading a sign and a magnitude gives the quantised value. -/
theorem decode_value {k : Nat} (hk : k < 2 ^ 32) {v : α} (h : |v| ≤ 1) :
    (if signBit v = 1 then -(((magBits k v).toNat : α)) else ((magBits k v).toNat : α)) / k =
      quantize (k : α) v := by
  rw [(magBits_le hk h).1, ← sign_magnitude (Nat.cast_nonneg k) v]
  unfold signBit
  by_cases hv : v < 0
  · simp [hv, neg_div]
  · simp [hv]

end Coding

namespace Core

variable {G : Type}

/-! ## ERROR_MSG -/

def errTag : BitField := ⟨28, 4⟩
def errCounter : BitField := ⟨20, 8⟩
def errSignX : BitField := ⟨17, 1⟩
def errSignY : BitField := ⟨16, 1⟩
def errPosX : BitField := ⟨8, 8⟩
def errPosY : BitField := ⟨0, 8⟩

/-- The fields of an ERROR key. -/
def errFields {α : Type} [Field α] [LinearOrder α] (xPos yPos : Uint) (c : Core α G) :
    List (BitField × Uint) :=
  [(errTag, 0xA), (errPosX, xPos), (errPosY, yPos), (errSignX, signBit c.errorX),
    (errSignY, signBit c.errorY), (errCounter, c.nextCounter)]

theorem sendErrPacket_eq (xPos yPos : Uint) (c : Core ℝ G) :
    c.sendErrPacket xPos yPos = ⟨BitField.pack (c.errFields xPos yPos),
      (magBits 10000 c.errorX <<< 16) ||| magBits 10000 c.errorY⟩ := by
  have h0 : (0.0 : ℝ) = 0 := by norm_num
  have hk : (10000.0 : ℝ) = ((10000 : Nat) : ℝ) := by norm_num
  have hpack : BitField.pack (c.errFields xPos yPos) = errorMsg ||| (xPos <<< 8) ||| yPos |||
      (signBit c.errorX <<< 17) ||| (signBit c.errorY <<< 16) ||| (c.nextCounter <<< 20) := by
    simp only [errFields, BitField.pack, BitField.put, errTag, errCounter, errSignX, errSignY,
      errPosX, errPosY, BitVec.shiftLeft_zero, BitVec.or_zero, BitVec.or_assoc]
    rfl
  simp only [sendErrPacket, h0, hk, apply_ite Prod.fst, apply_ite Prod.snd, or_signBit,
    or_magBits, or_magBits_zero, hpack]
  rw [show (0 : Uint) = 0#32 from rfl, BitVec.zero_or]

/-- What a sender of an ERROR packet must keep: coordinates of 8 bits and
clamped errors. The counter is always below 50. -/
structure ErrFits (xPos yPos : Uint) (c : Core ℝ G) : Prop where
  x_lt : xPos.toNat < 256
  y_lt : yPos.toNat < 256
  errorX_le : |c.errorX| ≤ 1
  errorY_le : |c.errorY| ≤ 1

theorem nextCounter_lt {α : Type} (c : Core α G) : c.nextCounter.toNat < 50 := by
  rw [nextCounter, BitVec.toNat_umod]
  exact Nat.mod_lt _ (by decide)

theorem get_sendErr_key {xPos yPos : Uint} {c : Core ℝ G} (h : c.ErrFits xPos yPos)
    {p : BitField × Uint} (hp : p ∈ c.errFields xPos yPos) :
    p.1.get (c.sendErrPacket xPos yPos).key = p.2 := by
  rw [sendErrPacket_eq]
  refine BitField.get_pack (l := c.errFields xPos yPos) ?_ ?_ ?_ hp
  · simp only [errFields, List.map_cons, List.map_nil]
    decide
  · simp only [errFields, List.map_cons, List.map_nil]
    decide
  · have hx := signBit_le c.errorX
    have hy := signBit_le c.errorY
    have hn := c.nextCounter_lt
    have h1 := h.x_lt
    have h2 := h.y_lt
    simp only [errFields, List.forall_mem_cons, BitField.Fits, errTag, errPosX, errPosY, errSignX,
      errSignY, errCounter]
    refine ⟨by decide, h1, h2, ?_, ?_, ?_, by simp⟩ <;> omega

theorem sendErr_payload {xPos yPos : Uint} {c : Core ℝ G} (h : c.ErrFits xPos yPos) :
    (c.sendErrPacket xPos yPos).payload >>> 16 = magBits 10000 c.errorX ∧
      (c.sendErrPacket xPos yPos).payload &&& 0xFFFF#32 = magBits 10000 c.errorY := by
  have hx := (magBits_le (k := 10000) (by decide) h.errorX_le).2
  have hy := (magBits_le (k := 10000) (by decide) h.errorY_le).2
  rw [sendErrPacket_eq, BitVec.or_comm]
  apply halves <;> simp only [BitField.Fits, hiHalf, loHalf] <;> omega

theorem sendErr_tag {xPos yPos : Uint} {c : Core ℝ G} (h : c.ErrFits xPos yPos) :
    (c.sendErrPacket xPos yPos).key &&& 0xF0000000#32 = errorMsg := by
  have hm := BitField.and_put_mask errTag (c.sendErrPacket xPos yPos).key
  rw [get_sendErr_key h (p := (errTag, 0xA)) (by simp [errFields])] at hm
  exact hm

theorem sendErr_counter {xPos yPos : Uint} {c : Core ℝ G} (h : c.ErrFits xPos yPos) :
    ((c.sendErrPacket xPos yPos).key >>> 20) &&& 0x000000FF#32 = c.nextCounter :=
  get_sendErr_key h (p := (errCounter, c.nextCounter)) (by simp [errFields])

theorem sendErr_pos {xPos yPos : Uint} {c : Core ℝ G} (h : c.ErrFits xPos yPos) :
    errPos (c.sendErrPacket xPos yPos).key = (xPos.toInt, yPos.toInt) := by
  have hx := get_sendErr_key h (p := (errPosX, xPos)) (by simp [errFields])
  have hy := get_sendErr_key h (p := (errPosY, yPos)) (by simp [errFields])
  rw [BitField.get_bottom rfl] at hy
  exact Prod.ext (congrArg BitVec.toInt hx) (congrArg BitVec.toInt hy)

/-- The precedence of `==` over `&` does no harm: the masked bit is 0 or 1. -/
theorem signBit_ne_zero_iff (v : ℝ) : signBit v ≠ 0 ↔ signBit v = 1 := by
  unfold signBit
  split <;> decide

theorem sendErr_errX {xPos yPos : Uint} {c : Core ℝ G} (h : c.ErrFits xPos yPos) :
    errX (c.sendErrPacket xPos yPos).key (c.sendErrPacket xPos yPos).payload =
      quantize 10000 c.errorX := by
  have hs : ((c.sendErrPacket xPos yPos).key >>> 17) &&& 0x00000001#32 = signBit c.errorX :=
    get_sendErr_key h (p := (errSignX, signBit c.errorX)) (by simp [errFields])
  have hk : (10000.0 : ℝ) = ((10000 : Nat) : ℝ) := by norm_num
  have hd := decode_value (k := 10000) (by decide) h.errorX_le
  simp only [errX, hs, (sendErr_payload h).1, ne_eq, signBit_ne_zero_iff, hk, ← ite_div]
  exact_mod_cast hd

theorem sendErr_errY {xPos yPos : Uint} {c : Core ℝ G} (h : c.ErrFits xPos yPos) :
    errY (c.sendErrPacket xPos yPos).key (c.sendErrPacket xPos yPos).payload =
      quantize 10000 c.errorY := by
  have hs : ((c.sendErrPacket xPos yPos).key >>> 16) &&& 0x00000001#32 = signBit c.errorY :=
    get_sendErr_key h (p := (errSignY, signBit c.errorY)) (by simp [errFields])
  have hk : (10000.0 : ℝ) = ((10000 : Nat) : ℝ) := by norm_num
  have hd := decode_value (k := 10000) (by decide) h.errorY_le
  simp only [errY, hs, (sendErr_payload h).2, ne_eq, signBit_ne_zero_iff, hk, ← ite_div]
  exact_mod_cast hd

/-! ## UPD_MSG -/

def updTag : BitField := ⟨30, 2⟩
def updSignVY : BitField := ⟨29, 1⟩
def updSignVX : BitField := ⟨28, 1⟩
def updSignTheta : BitField := ⟨27, 1⟩
def updSignPsi : BitField := ⟨26, 1⟩
def updIndex : BitField := ⟨20, 6⟩
def updFieldVY : BitField := ⟨10, 10⟩
def updFieldVX : BitField := ⟨0, 10⟩

/-- The number that `send_upd` puts into the key. -/
def coreIndex {α : Type} (c : Core α G) : Uint := coreNb (chipYOf c.chipID) (chipXOf c.chipID) c.coreID

theorem coreIndex_toNat {α : Type} (c : Core α G) : c.coreIndex.toNat = slot (c.chipID, c.coreID) := rfl

/-- The fields of an UPD key. -/
noncomputable def updFields (c : Core ℝ G) : List (BitField × Uint) :=
  [(updTag, 1), (updSignVY, signBit c.updVY), (updFieldVY, magBits 1000 c.updVY),
    (updSignVX, signBit c.updVX), (updFieldVX, magBits 1000 c.updVX),
    (updSignTheta, signBit c.updTheta), (updSignPsi, signBit c.updPsi), (updIndex, c.coreIndex)]

theorem sendUpdPacket_eq (c : Core ℝ G) :
    c.sendUpdPacket = ⟨BitField.pack c.updFields,
      (magBits 10000 c.updTheta <<< 16) ||| magBits 10000 c.updPsi⟩ := by
  have h0 : (0.0 : ℝ) = 0 := by norm_num
  have hk : (10000.0 : ℝ) = ((10000 : Nat) : ℝ) := by norm_num
  have hk' : (1000.0 : ℝ) = ((1000 : Nat) : ℝ) := by norm_num
  have hpack : BitField.pack c.updFields = updMsg ||| (signBit c.updVY <<< 29) |||
      (magBits 1000 c.updVY <<< 10) ||| (signBit c.updVX <<< 28) ||| magBits 1000 c.updVX |||
      (signBit c.updTheta <<< 27) ||| (signBit c.updPsi <<< 26) ||| (c.coreIndex <<< 20) := by
    simp only [updFields, BitField.pack, BitField.put, updTag, updSignVY, updSignVX, updSignTheta,
      updSignPsi, updIndex, updFieldVY, updFieldVX, BitVec.shiftLeft_zero, BitVec.or_zero,
      BitVec.or_assoc]
    rfl
  simp only [sendUpdPacket, h0, hk, hk', apply_ite Prod.fst, apply_ite Prod.snd, or_signMag,
    or_signMag_zero, or_signBit, or_magBits, or_magBits_zero, hpack]
  rw [show (0 : Uint) = 0#32 from rfl, BitVec.zero_or]
  rfl

/-- The reported values are clamped, whatever the weights and rates. -/
theorem upd_mem (c : Core ℝ G) :
    |c.updVX| ≤ 1 ∧ |c.updVY| ≤ 1 ∧ |c.updTheta| ≤ 1 ∧ |c.updPsi| ≤ 1 :=
  ⟨abs_range_le _, abs_range_le _, abs_range_le _, abs_range_le _⟩

theorem get_sendUpd_key {c : Core ℝ G} (h : (c.chipID, c.coreID) ∈ slaves) {p : BitField × Uint}
    (hp : p ∈ c.updFields) : p.1.get c.sendUpdPacket.key = p.2 := by
  rw [sendUpdPacket_eq]
  refine BitField.get_pack (l := c.updFields) ?_ ?_ ?_ hp
  · simp only [updFields, List.map_cons, List.map_nil]
    decide
  · simp only [updFields, List.map_cons, List.map_nil]
    decide
  · obtain ⟨hx, hy, _, _⟩ := c.upd_mem
    have h1 := signBit_le c.updVY
    have h2 := (magBits_le (k := 1000) (by decide) hy).2
    have h3 := signBit_le c.updVX
    have h4 := (magBits_le (k := 1000) (by decide) hx).2
    have h5 := signBit_le c.updTheta
    have h6 := signBit_le c.updPsi
    have h7 := slot_lt _ h
    rw [← coreIndex_toNat] at h7
    simp only [updFields, List.forall_mem_cons, BitField.Fits, updTag, updSignVY, updSignVX,
      updSignTheta, updSignPsi, updIndex, updFieldVY, updFieldVX]
    refine ⟨by decide, ?_, ?_, ?_, ?_, ?_, ?_, ?_, by simp⟩ <;> omega

theorem sendUpd_payload (c : Core ℝ G) :
    c.sendUpdPacket.payload >>> 16 = magBits 10000 c.updTheta ∧
      c.sendUpdPacket.payload &&& 0xFFFF#32 = magBits 10000 c.updPsi := by
  obtain ⟨_, _, ht, hp⟩ := c.upd_mem
  have h1 := (magBits_le (k := 10000) (by decide) ht).2
  have h2 := (magBits_le (k := 10000) (by decide) hp).2
  rw [sendUpdPacket_eq, BitVec.or_comm]
  apply halves <;> simp only [BitField.Fits, hiHalf, loHalf] <;> omega

theorem sendUpd_tag {c : Core ℝ G} (h : (c.chipID, c.coreID) ∈ slaves) :
    c.sendUpdPacket.key &&& 0xC0000000#32 = updMsg := by
  have hm := BitField.and_put_mask updTag c.sendUpdPacket.key
  rw [get_sendUpd_key h (p := (updTag, 1)) (by simp [updFields])] at hm
  exact hm

/-- The two tags differ in the top bit, so no packet is both. -/
theorem not_error_of_upd {key : Uint} (h : key &&& 0xC0000000#32 = updMsg) :
    key &&& 0xF0000000#32 ≠ errorMsg := by
  intro he
  have h2 : (key &&& 0xF0000000#32) &&& 0xC0000000#32 = key &&& 0xC0000000#32 := by
    rw [BitVec.and_assoc]
    rfl
  rw [he, h] at h2
  exact absurd h2 (by decide)

theorem sendUpd_not_isNewError {c : Core ℝ G} (h : (c.chipID, c.coreID) ∈ slaves) (d : Core ℝ G) :
    ¬IsNewError c.sendUpdPacket.key d := fun he => not_error_of_upd (sendUpd_tag h) he.1

/-- What `rec_upd` reads from the packet of a slave: its number and the four
clamped products, each truncated toward zero. -/
theorem recUpdLocals_sendUpd {c : Core ℝ G} (h : (c.chipID, c.coreID) ∈ slaves) :
    let l : UpdLocals ℝ := recUpdLocals c.sendUpdPacket.key c.sendUpdPacket.payload
    l.index = slot (c.chipID, c.coreID) ∧ l.vX / 1000.0 = quantize 1000 c.updVX ∧
      l.vY / 1000.0 = quantize 1000 c.updVY ∧ l.theta / 10000.0 = quantize 10000 c.updTheta ∧
      l.psi / 10000.0 = quantize 10000 c.updPsi := by
  have hsVX : (c.sendUpdPacket.key >>> 28) &&& 0x00000001#32 = signBit c.updVX :=
    get_sendUpd_key h (p := (updSignVX, signBit c.updVX)) (by simp [updFields])
  have hsVY : (c.sendUpdPacket.key >>> 29) &&& 0x00000001#32 = signBit c.updVY :=
    get_sendUpd_key h (p := (updSignVY, signBit c.updVY)) (by simp [updFields])
  have hsTheta : (c.sendUpdPacket.key >>> 27) &&& 0x00000001#32 = signBit c.updTheta :=
    get_sendUpd_key h (p := (updSignTheta, signBit c.updTheta)) (by simp [updFields])
  have hsPsi : (c.sendUpdPacket.key >>> 26) &&& 0x00000001#32 = signBit c.updPsi :=
    get_sendUpd_key h (p := (updSignPsi, signBit c.updPsi)) (by simp [updFields])
  have hi : (c.sendUpdPacket.key >>> 20) &&& 0x0000003F#32 = c.coreIndex :=
    get_sendUpd_key h (p := (updIndex, c.coreIndex)) (by simp [updFields])
  have hmVY : (c.sendUpdPacket.key >>> 10) &&& 0x000003FF#32 = magBits 1000 c.updVY :=
    get_sendUpd_key h (p := (updFieldVY, magBits 1000 c.updVY)) (by simp [updFields])
  have hmVX := get_sendUpd_key h (p := (updFieldVX, magBits 1000 c.updVX)) (by simp [updFields])
  rw [BitField.get_bottom rfl] at hmVX
  have hmVX : c.sendUpdPacket.key &&& 0x000003FF#32 = magBits 1000 c.updVX := hmVX
  obtain ⟨hpT, hpP⟩ := c.sendUpd_payload
  obtain ⟨bX, bY, bT, bP⟩ := c.upd_mem
  have hk : (10000.0 : ℝ) = ((10000 : Nat) : ℝ) := by norm_num
  have hk' : (1000.0 : ℝ) = ((1000 : Nat) : ℝ) := by norm_num
  have dX := decode_value (k := 1000) (by decide) bX
  have dY := decode_value (k := 1000) (by decide) bY
  have dT := decode_value (k := 10000) (by decide) bT
  have dP := decode_value (k := 10000) (by decide) bP
  simp only [recUpdLocals, hsVX, hsVY, hsTheta, hsPsi, hi, hmVY, hmVX, hpT, hpP, hk, hk']
  exact ⟨rfl, by exact_mod_cast dX, by exact_mod_cast dY, by exact_mod_cast dT,
    by exact_mod_cast dP⟩

end Core

/-! ## Round trip -/

/-- A core that is one of the slaves, in any state of its weights and rates. -/
structure SlaveCore (α G : Type) where
  core : Core α G
  mem_slaves : (core.chipID, core.coreID) ∈ slaves

namespace SlaveCore

variable {α G : Type} [Field α] [LinearOrder α] [FloorRing α] [Libm α] [Prng G]

/-- What `send_upd` puts on the network. -/
def packet (s : SlaveCore α G) : Packet := s.core.sendUpdPacket

/-- What `rec_upd` reads from it. -/
def locals (s : SlaveCore α G) : UpdLocals α := Core.recUpdLocals s.packet.key s.packet.payload

end SlaveCore

/-- The UPD packet of a slave reaches `rec_upd` in the master and nothing in
another slave, and its five values are the slave's number and the four clamped
products, truncated toward zero. -/
theorem upd_msg_round_trip {G : Type} [Prng G] (s : SlaveCore ℝ G) :
    (∀ (m : Core ℝ G) (now : Nat), m.eventMaster s.packet.key s.packet.payload now =
        m.recUpd s.packet.key s.packet.payload) ∧
      (∀ d : Core ℝ G, d.eventNode s.packet.key s.packet.payload = d) ∧
      s.locals.index = (coreNb (chipYOf s.core.chipID) (chipXOf s.core.chipID) s.core.coreID).toNat ∧
      s.locals.vX / 1000.0 = quantize 1000 (range (s.core.wVX * s.core.phiMFMX) (-1.0) 1.0) ∧
      s.locals.vY / 1000.0 = quantize 1000 (range (s.core.wVY * s.core.phiMFMY) (-1.0) 1.0) ∧
      s.locals.theta / 10000.0 =
        quantize 10000 (range (s.core.wATheta * s.core.phiMFMX) (-1.0) 1.0) ∧
      s.locals.psi / 10000.0 =
        quantize 10000 (range (s.core.wAPsi * s.core.phiMFMY) (-1.0) 1.0) :=
  ⟨fun _ _ => if_pos (Core.sendUpd_tag s.mem_slaves),
    fun d => if_neg (Core.sendUpd_not_isNewError s.mem_slaves d),
    Core.recUpdLocals_sendUpd s.mem_slaves⟩

/-! ## The index -/

section Index

variable {G : Type} [Prng G]

omit [Prng G] in
theorem SlaveCore.locals_index (s : SlaveCore ℝ G) :
    s.locals.index = slot (s.core.chipID, s.core.coreID) :=
  (Core.recUpdLocals_sendUpd s.mem_slaves).1

/-- The master gets the packet of a slave. -/
noncomputable def receive (m : Core ℝ G) (s : SlaveCore ℝ G) : Core ℝ G :=
  m.eventMaster s.packet.key s.packet.payload 0

/-- The three arrays of the master have cells for the number it reads. -/
def WritesInBounds (m : Core ℝ G) (s : SlaveCore ℝ G) : Prop :=
  receive m s = m.recUpd s.packet.key s.packet.payload ∧ s.locals.index < nMFM

omit [Prng G] in
/-- Whatever the master receives, in any order and with any repetitions: all
writes of `rec_upd` are in bounds and no two slaves share a cell exactly when no
packet comes from one of the cores 12 to 15 of chip 257. -/
theorem upd_index_ok_iff (m : Core ℝ G) (received : List (SlaveCore ℝ G)) :
    (Along receive WritesInBounds m received ∧
      ∀ s ∈ received, ∀ s' ∈ received, s.locals.index = s'.locals.index →
        (s.core.chipID, s.core.coreID) = (s'.core.chipID, s'.core.coreID)) ↔
      ∀ s ∈ received, ¬(s.core.chipID = 257 ∧ 12 ≤ s.core.coreID.toNat) := by
  have hwrites : ∀ (m : Core ℝ G) s,
      WritesInBounds m s ↔ ¬(s.core.chipID = 257 ∧ 12 ≤ s.core.coreID.toNat) := by
    intro m s
    rw [WritesInBounds, s.locals_index, ← slot_lt_nMFM_iff _ s.mem_slaves]
    exact and_iff_right (if_pos (Core.sendUpd_tag s.mem_slaves))
  rw [along_congr (I := fun _ => True) (fun _ _ h _ => h) (fun m s _ => hwrites m s) trivial,
    along_events]
  refine and_iff_left fun s _ s' _ h => ?_
  rw [s.locals_index, s'.locals_index] at h
  exact slot_injective _ s.mem_slaves _ s'.mem_slaves h

/-- Core 15 of chip 257 reports under the number 62. -/
theorem upd_index_overrun :
    ∃ s : SlaveCore ℝ MuslRand, s.core = Core.cMain ℝ MuslRand 257 15 ∧ s.locals.index = 62 ∧
      ∀ m : Core ℝ MuslRand, ¬WritesInBounds m s := by
  refine ⟨⟨Core.cMain ℝ MuslRand 257 15, by decide⟩, rfl, ?_, fun m h => ?_⟩
  · rw [SlaveCore.locals_index]
    decide
  · have h62 := h.2
    rw [SlaveCore.locals_index] at h62
    exact absurd h62 (by decide)

end Index

end BallController.Parallel
