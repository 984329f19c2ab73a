import BallController.Parallel.Lifetime
import BallController.Parallel.Routing
import BallController.Sequential.Routing

/-! The routing table of the master chip. Its catch-all row has the last number,
so that the key 0x41 leaves to the west, which it does not in the sequential
version. None of the packets of the master comes back to it: it never takes one
of its commands or ERROR messages for a camera event or a report. -/

namespace BallController.Parallel
open Lib
open BallController.Sequential (IsDeviceKey matches_exact)

/-- Where the row of the ERROR messages leads. -/
def errorRoute : Uint := north ||| nEast ||| east ||| allNodesMasterChip

/-- The rows of the master chip in the order of their numbers. -/
theorem routingRow_master (key : Uint) : routingRow key (0, 0) =
    some (if key = evds1Enable ||| mgmtBit then ⟨0x1, evds1Enable ||| mgmtBit, 0xFFFFFFFF, east⟩
      else if key &&& 0xFFFF0000#32 = motorsKey then ⟨0x2, motorsKey, 0xFFFF0000, east⟩
      else if key = 0x41 then ⟨0x4, 0x41, 0xFFFFFFFF, west⟩
      else if key &&& 0xF0000000#32 = errorMsg then ⟨0x6, errorMsg, 0xF0000000, errorRoute⟩
      else if key &&& 0xC0000000#32 = updMsg then ⟨0x7, updMsg, 0xC0000000, masterCore⟩
      else ⟨0x20, 0x0, 0x0, masterCore⟩) := by
  have htable : table (0, 0) = initIO 0 := rfl
  have hmotors : (Row.mk 0x2 motorsKey 0xFFFF0000 east).Matches key ↔
      key &&& 0xFFFF0000#32 = motorsKey := Iff.rfl
  have herror : (Row.mk 0x6 errorMsg 0xF0000000 (north ||| nEast ||| east ||| allNodesMasterChip)).Matches
      key ↔ key &&& 0xF0000000#32 = errorMsg := Iff.rfl
  have hupd : (Row.mk 0x7 updMsg 0xC0000000 masterCore).Matches key ↔
      key &&& 0xC0000000#32 = updMsg := Iff.rfl
  have hall : (Row.mk 0x20 0x0 0x0 masterCore).Matches key := BitVec.and_zero
  rw [routingRow, htable, initIO, if_pos rfl]
  simp only [List.filter_cons, hmotors, herror, hupd, hall, matches_exact, decide_eq_true_eq,
    List.filter_nil, if_true]
  split_ifs <;> rfl

theorem route_master (key : Uint) : route key (0, 0) =
    if IsDeviceKey key then east else if key = 0x41 then west
    else if key &&& 0xF0000000#32 = errorMsg then errorRoute else masterCore := by
  rw [route, routingRow_master, Option.elim_some]
  by_cases h1 : key = evds1Enable ||| mgmtBit
  · have hkey : IsDeviceKey key := Or.inr h1
    rw [if_pos h1, if_pos hkey]
  by_cases h2 : key &&& 0xFFFF0000#32 = motorsKey
  · have hkey : IsDeviceKey key := Or.inl h2
    rw [if_neg h1, if_pos h2, if_pos hkey]
  have hkey : ¬IsDeviceKey key := not_or.mpr ⟨h2, h1⟩
  rw [if_neg h1, if_neg h2, if_neg hkey]
  split_ifs <;> rfl

/-! ## Runs -/

variable {G : Type} [Prng G]

/-- The keys that the master sends. -/
def IsMasterKey (key : Uint) : Prop := IsDeviceKey key ∨ key &&& 0xF0000000#32 = errorMsg

theorem isMasterKey_step (c : Core ℝ G) (e : MasterEvent)
    (h : c.tracker.Ok ∧ ∀ p ∈ c.sent, IsMasterKey p.key) :
    (masterStep c e).tracker.Ok ∧ ∀ p ∈ (masterStep c e).sent, IsMasterKey p.key := by
  have hmotors : motorsKey &&& 0xFFFF0000#32 = motorsKey := by decide
  refine ⟨tracker_step c e h.1, ?_⟩
  rw [sent_step]
  refine List.forall_mem_append.mpr ⟨h.2, ?_⟩
  cases e with
  | packet key payload now => exact List.forall_mem_nil _
  | tick t =>
    rw [sends]
    split
    · refine List.forall_mem_cons.mpr ⟨Or.inl (Or.inl hmotors), ?_⟩
      exact List.forall_mem_singleton.mpr (Or.inr (Core.sendErr_tag (errFits_beforeSend h.1 t)))
    · exact List.forall_mem_nil _

/-- For every run of the master: each of its packets leaves its chip to the
devices in the east, or as an ERROR message to the slaves, and none reaches its
own core. And each packet that enters the router with a key other than the
master's own and 0x41 ends at the master and at no other core. -/
theorem master_packets_never_return (evs : List MasterEvent) :
    (∀ p ∈ (masterRun ℝ G evs).sent, (route p.key (0, 0) = east ∨ route p.key (0, 0) = errorRoute) ∧
        ((0, 0), 1) ∉ (fabric p.key).sinks (0, 0)) ∧
      ∀ key, ¬IsMasterKey key → key ≠ 0x41 → (fabric key).sinks (0, 0) = [((0, 0), 1)] ∧
        (fabric key).next (0, 0) = [] := by
  have heast : ((0, 0), 1) ∉ ((List.range 26).filter fun n => east &&& core n ≠ 0).map
      fun n => (((0, 0) : Int × Int), n) := by decide
  have herror : ((0, 0), 1) ∉ ((List.range 26).filter fun n => errorRoute &&& core n ≠ 0).map
      fun n => (((0, 0) : Int × Int), n) := by decide
  constructor
  · intro p hp
    have hstart : ∀ p ∈ startDevices, IsDeviceKey p.key := forall_mem_of_all (by decide)
    have hrun : (masterRun ℝ G evs).tracker.Ok ∧ ∀ p ∈ (masterRun ℝ G evs).sent, IsMasterKey p.key := by
      refine exec_induction (P := fun c : Core ℝ G => c.tracker.Ok ∧ ∀ p ∈ c.sent, IsMasterKey p.key)
        isMasterKey_step ⟨masterStart_ok, fun p hp => ?_⟩ evs
      rw [masterStart_sent] at hp
      exact Or.inl (hstart p hp)
    have hroute := route_master p.key
    by_cases hkey : IsDeviceKey p.key
    · rw [if_pos hkey] at hroute
      refine ⟨Or.inl hroute, ?_⟩
      simp only [fabric, hroute]
      exact heast
    · have herr := (hrun.2 p hp).resolve_left hkey
      have h41 : p.key ≠ 0x41 := fun he => absurd (he ▸ herr) (by decide)
      rw [if_neg hkey, if_neg h41, if_pos herr] at hroute
      refine ⟨Or.inr hroute, ?_⟩
      simp only [fabric, hroute]
      exact herror
  · intro key hkey h41
    obtain ⟨hdevice, herr⟩ := not_or.mp hkey
    have hroute := route_master key
    rw [if_neg hdevice, if_neg h41, if_neg herr] at hroute
    simp only [fabric, hroute]
    decide

end BallController.Parallel
