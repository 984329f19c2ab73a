import BallController.Lib.Forwarding
import BallController.Parallel.System

/-! The multicast routes of `parallel/communication.c`. Every chip has its own
table, and a packet is steered by its key alone. The rows that can match an ERROR
or an UPD packet look at its tag bits and at nothing else, so that all packets of
a kind take the way of its bare tag. -/

namespace BallController.Parallel
open Lib Spin1Math

/-! ## Tables -/

def east : Uint := 0x1
def nEast : Uint := 0x2
def north : Uint := 0x4
def west : Uint := 0x8
def sWest : Uint := 0x10
def south : Uint := 0x20

/-- `CORE(n)`. -/
def core (n : Nat) : Uint := 1#32 <<< (n + 6)

def allNodesMasterChip : Uint :=
  core 2 ||| core 3 ||| core 4 ||| core 5 ||| core 6 ||| core 7 ||| core 8 ||| core 9 ||| core 10 |||
    core 11 ||| core 12 ||| core 13 ||| core 14 ||| core 15

def allNodesNoMasterChip : Uint := core 1 ||| allNodesMasterChip

def masterCore : Uint := core 1

/-- The arguments of `spin1_set_mc_table_entry`. -/
structure Row where
  number : Nat
  key : Uint
  mask : Uint
  route : Uint

/-- The rows that the cores of a chip install, in the order of the calls. -/
def initIO (chipID : Uint) : List Row :=
  if chipID = 0 then
    [⟨0x2, motorsKey, 0xFFFF0000, east⟩,
      ⟨0x1, evds1Enable ||| mgmtBit, 0xFFFFFFFF, east⟩,
      ⟨0x4, 0x41, 0xFFFFFFFF, west⟩,
      ⟨0x6, errorMsg, 0xF0000000, north ||| nEast ||| east ||| allNodesMasterChip⟩,
      ⟨0x7, updMsg, 0xC0000000, masterCore⟩,
      ⟨0x20, 0x0, 0x0, masterCore⟩]
  else if chipID = 1 then
    [⟨0x6, errorMsg, 0xF0000000, allNodesNoMasterChip⟩, ⟨0x7, updMsg, 0xC0000000, south⟩]
  else if chipID = 256 then
    [⟨0x6, errorMsg, 0xF0000000, allNodesNoMasterChip⟩, ⟨0x7, updMsg, 0xC0000000, west⟩]
  else if chipID = 257 then
    [⟨0x6, errorMsg, 0xF0000000, allNodesNoMasterChip⟩, ⟨0x7, updMsg, 0xC0000000, sWest⟩]
  else []

/-! ## Routers -/

/-- Where the chips sit. -/
def place (chipID : Uint) : Int × Int :=
  if chipID = 0 then (0, 0) else if chipID = 1 then (0, 1) else if chipID = 256 then (1, 0) else (1, 1)

/-- The table of the router at a place. -/
def table (p : Int × Int) : List Row :=
  if p = (0, 0) then initIO 0
  else if p = (0, 1) then initIO 1
  else if p = (1, 0) then initIO 256
  else if p = (1, 1) then initIO 257
  else []

def Row.Matches (r : Row) (key : Uint) : Prop := key &&& r.mask = r.key

instance (r : Row) (key : Uint) : Decidable (r.Matches key) := inferInstanceAs (Decidable (_ = _))

/-- The matching row with the lowest number. -/
def routingRow (key : Uint) (p : Int × Int) : Option Row :=
  ((table p).filter fun r => r.Matches key).argmin Row.number

def route (key : Uint) (p : Int × Int) : Uint := (routingRow key p).elim 0 Row.route

/-- The link bits, with where they lead. -/
def links : List (Uint × (Int × Int)) :=
  [(east, (1, 0)), (nEast, (1, 1)), (north, (0, 1)), (west, (-1, 0)), (sWest, (-1, -1)),
    (south, (0, -1))]

/-- The routers under packets of the key `key`; a sink is a core number at a place. -/
def fabric (key : Uint) : Fabric (Int × Int) ((Int × Int) × Nat) where
  next p := (links.filter fun l => route key p &&& l.1 ≠ 0).map fun l => p + l.2
  sinks p := ((List.range 26).filter fun n => route key p &&& core n ≠ 0).map fun n => (p, n)

/-- The sink that is a core of the program. -/
def sinkOf (p : Uint × Uint) : (Int × Int) × Nat := (place p.1, p.2.toNat)

/-! ## The tag decides the route -/

/-- The bits of a key under the mask `m` being `t`, the row looks at these bits
only, or they already exclude it. -/
def Row.DecidedBy (m t : Uint) (r : Row) : Prop :=
  r.mask &&& m = r.mask ∨ r.key &&& m ≠ t &&& r.mask

instance (m t : Uint) (r : Row) : Decidable (r.DecidedBy m t) := inferInstanceAs (Decidable (_ ∨ _))

theorem Row.DecidedBy.matches_iff {m t key : Uint} {r : Row} (h : r.DecidedBy m t)
    (ht : t &&& m = t) (hk : key &&& m = t) : r.Matches key ↔ r.Matches t := by
  have hmask : ∀ k : Uint, k &&& m = t → k &&& r.mask &&& m = t &&& r.mask := by
    intro k hk
    rw [BitVec.and_assoc, BitVec.and_comm r.mask, ← BitVec.and_assoc, hk]
  unfold Row.Matches
  rcases h with h | h
  · have hkey : key &&& r.mask = t &&& r.mask := by
      have := hmask key hk
      rwa [BitVec.and_assoc, h] at this
    rw [hkey]
  · constructor
    · intro he
      exact absurd (he ▸ hmask key hk) h
    · intro he
      exact absurd (he ▸ hmask t ht) h

theorem table_decidedBy {m t : Uint}
    (h : ∀ c ∈ [0, 1, 256, 257], ∀ r ∈ initIO c, r.DecidedBy m t) (p : Int × Int) :
    ∀ r ∈ table p, r.DecidedBy m t := by
  unfold table
  split_ifs
  · exact h 0 (by decide)
  · exact h 1 (by decide)
  · exact h 256 (by decide)
  · exact h 257 (by decide)
  · intro r hr
    cases hr

/-- A packet takes the way of its bare tag. -/
theorem fabric_congr {m t key : Uint}
    (h : ∀ c ∈ [0, 1, 256, 257], ∀ r ∈ initIO c, r.DecidedBy m t)
    (ht : t &&& m = t) (hk : key &&& m = t) : fabric key = fabric t := by
  have hroute : ∀ p, route key p = route t p := by
    intro p
    have hfilter : (table p).filter (fun r => r.Matches key) =
        (table p).filter fun r => r.Matches t :=
      List.filter_congr fun r hr =>
        decide_eq_decide.mpr ((table_decidedBy h p r hr).matches_iff ht hk)
    rw [route, routingRow, hfilter, route, routingRow]
  simp only [fabric, hroute]

theorem fabric_of_error {key : Uint} (h : key &&& 0xF0000000#32 = errorMsg) :
    fabric key = fabric errorMsg :=
  fabric_congr (forall_mem_of_all (by decide)) (by decide) h

theorem fabric_of_upd {key : Uint} (h : key &&& 0xC0000000#32 = updMsg) :
    fabric key = fabric updMsg :=
  fabric_congr (forall_mem_of_all (by decide)) (by decide) h

/-! ## The two ways -/

/-- The master chip sends an ERROR packet to the three others, and these no further. -/
theorem error_next : (fabric errorMsg).next (0, 0) = [(1, 0), (1, 1), (0, 1)] ∧
    ∀ p ∈ [((1, 0) : Int × Int), (1, 1), (0, 1)], (fabric errorMsg).next p = [] := by decide

theorem error_dies : (fabric errorMsg).Dies 2 (0, 0) := by
  intro p hp q hq
  rw [error_next.1] at hp
  rw [error_next.2 p hp] at hq
  cases hq

/-- The cores `k`, ..., 15 at a place. -/
def coresFrom (k : Nat) (p : Int × Int) : List ((Int × Int) × Nat) :=
  (List.range' k (16 - k)).map fun n => (p, n)

theorem error_sinks : (fabric errorMsg).sinks (0, 0) = coresFrom 2 (0, 0) ∧
    ∀ p ∈ [((1, 0) : Int × Int), (1, 1), (0, 1)], (fabric errorMsg).sinks p = coresFrom 1 p := by
  decide

theorem map_sinkOf_slaves : slaves.map sinkOf = coresFrom 2 (0, 0) ++
    (coresFrom 1 (0, 1) ++ (coresFrom 1 (1, 0) ++ coresFrom 1 (1, 1))) := by decide

/-- An ERROR packet reaches every slave once. -/
theorem error_arrivals : ((fabric errorMsg).arrivals 2 (0, 0)).Perm (slaves.map sinkOf) := by
  have hleaf : ∀ p ∈ [((1, 0) : Int × Int), (1, 1), (0, 1)],
      (fabric errorMsg).arrivals 1 p = coresFrom 1 p := by
    intro p hp
    rw [Fabric.arrivals, error_next.2 p hp, error_sinks.2 p hp, List.flatMap_nil, List.append_nil]
  have hfan : (fabric errorMsg).arrivals 2 (0, 0) = coresFrom 2 (0, 0) ++
      ((coresFrom 1 (1, 0) ++ coresFrom 1 (1, 1)) ++ coresFrom 1 (0, 1)) := by
    rw [Fabric.arrivals, error_next.1, error_sinks.1, List.flatMap_congr hleaf]
    simp
  rw [hfan, map_sinkOf_slaves]
  exact List.perm_append_comm.append_left _

/-- Every chip sends an UPD packet straight to the master chip, and this no further. -/
theorem upd_next : (fabric updMsg).next (0, 0) = [] ∧
    ∀ p ∈ [((1, 0) : Int × Int), (1, 1), (0, 1)], (fabric updMsg).next p = [(0, 0)] := by decide

theorem upd_sinks : (fabric updMsg).sinks (0, 0) = [((0, 0), 1)] ∧
    ∀ p ∈ [((1, 0) : Int × Int), (1, 1), (0, 1)], (fabric updMsg).sinks p = [] := by decide

theorem upd_dies {p : Int × Int} (hp : p ∈ [((0, 0) : Int × Int), (1, 0), (1, 1), (0, 1)]) :
    (fabric updMsg).Dies 2 p := by
  intro q hq r hr
  rcases List.mem_cons.mp hp with rfl | hp
  · rw [upd_next.1] at hq
    cases hq
  · rw [upd_next.2 p hp, List.mem_singleton] at hq
    rw [hq, upd_next.1] at hr
    cases hr

/-- From every chip an UPD packet reaches the master once and no other core. -/
theorem upd_arrivals {p : Int × Int} (hp : p ∈ [((0, 0) : Int × Int), (1, 0), (1, 1), (0, 1)]) :
    (fabric updMsg).arrivals 2 p = [((0, 0), 1)] := by
  rcases List.mem_cons.mp hp with rfl | hp
  · rw [Fabric.arrivals, upd_next.1, upd_sinks.1, List.flatMap_nil, List.append_nil]
  · rw [Fabric.arrivals, upd_next.2 p hp, upd_sinks.2 p hp, List.nil_append, List.flatMap_singleton,
      Fabric.arrivals, upd_next.1, upd_sinks.1, List.flatMap_nil, List.append_nil]

theorem place_mem (c : Uint) : place c ∈ [((0, 0) : Int × Int), (1, 0), (1, 1), (0, 1)] := by
  unfold place
  split_ifs <;> decide

/-! ## Delivery -/

/-- The packet that `send_err` emits in the tick `t`. -/
def Core.errPacket {α G : Type} [Field α] [LinearOrder α] [FloorRing α] [Libm α] [Prng G] (t : Nat)
    (c : Core α G) : Packet :=
  (c.beforeSend t).sendErrPacket (toUint c.tracker.xPos) (toUint c.tracker.yPos)

theorem sinks_nodup : (slaves.map sinkOf).Nodup := by decide

variable {G : Type} [Prng G]

end BallController.Parallel
