import BallController.Parallel.Routing
import BallController.Sequential.Motors

/-! The routing table of the sequential program. Its catch-all row has the number
3 and not the last one, so that it comes before the row of the key 0x41. All the
keys of the program leave to the east; every other key, that one included, ends
at the core of the controller. -/

namespace BallController.Sequential
open Lib
open Parallel (Row east west core)

/-- `initIO`: the rows in the order of the calls. -/
def initIO : List Row :=
  [⟨0x2, motorsKey, 0xFFFF0000, east⟩, ⟨0x1, evds1Enable ||| mgmtBit, 0xFFFFFFFF, east⟩,
    ⟨0x4, 0x41, 0xFFFFFFFF, west⟩, ⟨0x3, 0x0, 0x0, core 1⟩]

/-- The matching row with the lowest number. -/
def routingRow (key : Uint) : Option Row :=
  (List.filter (fun r => r.Matches key) initIO).argmin Row.number

def route (key : Uint) : Uint := (routingRow key).elim 0 Row.route

/-- The keys of the commands and of the switch of the camera. -/
def IsDeviceKey (key : Uint) : Prop :=
  key &&& 0xFFFF0000#32 = motorsKey ∨ key = evds1Enable ||| mgmtBit

instance (key : Uint) : Decidable (IsDeviceKey key) := inferInstanceAs (Decidable (_ ∨ _))

theorem matches_exact (n : Nat) (k r key : Uint) :
    (Row.mk n k 0xFFFFFFFF r).Matches key ↔ key = k := by
  have hmask : key &&& 0xFFFFFFFF#32 = key := BitVec.and_allOnes
  exact Eq.congr_left hmask

/-- The catch-all row hides the one that was installed before it. -/
theorem routingRow_eq (key : Uint) : routingRow key =
    some (if key = evds1Enable ||| mgmtBit then ⟨0x1, evds1Enable ||| mgmtBit, 0xFFFFFFFF, east⟩
      else if key &&& 0xFFFF0000#32 = motorsKey then ⟨0x2, motorsKey, 0xFFFF0000, east⟩
      else ⟨0x3, 0x0, 0x0, core 1⟩) := by
  have hmotors : (Row.mk 0x2 motorsKey 0xFFFF0000 east).Matches key ↔
      key &&& 0xFFFF0000#32 = motorsKey := Iff.rfl
  have hall : (Row.mk 0x3 0x0 0x0 (core 1)).Matches key := BitVec.and_zero
  unfold routingRow initIO
  simp only [List.filter_cons, hmotors, hall, matches_exact, decide_eq_true_eq, List.filter_nil, if_true]
  split_ifs <;> rfl

theorem route_eq (key : Uint) : route key = if IsDeviceKey key then east else core 1 := by
  rw [route, routingRow_eq, Option.elim_some]
  by_cases h1 : key = evds1Enable ||| mgmtBit
  · have hkey : IsDeviceKey key := Or.inr h1
    rw [if_pos h1, if_pos hkey]
  by_cases h2 : key &&& 0xFFFF0000#32 = motorsKey
  · have hkey : IsDeviceKey key := Or.inl h2
    rw [if_neg h1, if_pos h2, if_pos hkey]
  · have hkey : ¬IsDeviceKey key := not_or.mpr ⟨h2, h1⟩
    rw [if_neg h1, if_neg h2, if_neg hkey]

/-! ## Runs -/

variable {N : Nat} {G : Type} [Prng G]

theorem isDeviceKey_step (s : State N ℝ G) (e : Event) (h : ∀ p ∈ s.sent, IsDeviceKey p.key) :
    ∀ p ∈ (step s e).sent, IsDeviceKey p.key := by
  have hmotors : motorsKey &&& 0xFFFF0000#32 = motorsKey := by decide
  rw [sent_step]
  refine List.forall_mem_append.mpr ⟨h, ?_⟩
  intro p hp
  obtain ⟨c, -, rfl⟩ := List.mem_map.mp hp
  exact Or.inl hmotors

/-- Every packet of every run goes to the devices in the east and none comes back
to the controller; and whatever else enters the router, with the key 0x41 that a
row of its own would send west or any other, ends at the controller. -/
theorem packets_never_return (noiseSeed : Uint) (evs : List Event) :
    (∀ p ∈ (run N ℝ G noiseSeed evs).sent, route p.key = east) ∧
      ∀ key, ¬IsDeviceKey key → route key = core 1 := by
  refine ⟨fun p hp => ?_, fun key hkey => (route_eq key).trans (if_neg hkey)⟩
  have hstart : ∀ p ∈ startDevices, IsDeviceKey p.key := forall_mem_of_all (by decide)
  have hrun : ∀ p ∈ (run N ℝ G noiseSeed evs).sent, IsDeviceKey p.key := by
    refine exec_induction (P := fun s : State N ℝ G => ∀ p ∈ s.sent, IsDeviceKey p.key)
      isDeviceKey_step ?_ evs
    rw [State.cMain_sent]
    exact hstart
  exact (route_eq p.key).trans (if_pos (hrun p hp))

example : route 0x41 = core 1 := by decide

end BallController.Sequential
