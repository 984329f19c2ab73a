import Mathlib

/-! Store-and-forward networks with multicast. A hop takes one copy of a packet
out of its node, hands it to the local sinks of the node and puts a copy on each
link that the node forwards it to. Which copy moves next is open. A packet that
dies out within a number of hops on every path ends under every schedule after
the same number of hops, with the same deliveries. -/

namespace BallController.Lib

variable {ν δ : Type}

/-- What the nodes do with one packet. -/
structure Fabric (ν δ : Type) where
  next : ν → List ν
  sinks : ν → List δ

/-- The copies of a packet under way, and the sinks it has reached. -/
structure Flight (ν δ : Type) where
  copies : List ν
  delivered : List δ

namespace Fabric

variable (N : Fabric ν δ)

/-- One copy moves. -/
inductive Hop : Flight ν δ → Flight ν δ → Prop
  | mk (l : List ν) (v : ν) (l' : List ν) (d : List δ) :
    Hop ⟨l ++ v :: l', d⟩ ⟨l ++ N.next v ++ l', d ++ N.sinks v⟩

/-- `n` hops in any order. -/
inductive Hops : Nat → Flight ν δ → Flight ν δ → Prop
  | refl (s : Flight ν δ) : Hops 0 s s
  | tail {n : Nat} {s t u : Flight ν δ} : Hops n s t → N.Hop t u → Hops (n + 1) s u

/-- A packet that enters the network at `v`. -/
def inject (v : ν) : Flight ν δ := ⟨[v], []⟩

/-- No copy is left after `n` hops along any path from `v`. -/
def Dies : Nat → ν → Prop
  | 0, _ => False
  | n + 1, v => ∀ w ∈ N.next v, Dies n w

/-- The sinks on the paths of at most `n` hops from `v`. -/
def arrivals : Nat → ν → List δ
  | 0, _ => []
  | n + 1, v => N.sinks v ++ (N.next v).flatMap (arrivals n)

/-- The hops on these paths. -/
def cost : Nat → ν → Nat
  | 0, _ => 0
  | n + 1, v => ((N.next v).map (cost n)).sum + 1

/-- The fate of a packet that enters at `v`: under every schedule it is not
forwarded for ever, never stuck, never at a sink that is not among `ds`, and in
the end at each sink of `ds` as often as it stands there. -/
structure Delivers (v : ν) (ds : List δ) : Prop where
  ends : ∃ n, ∀ k s, N.Hops k (inject v) s → k ≤ n
  moves : ∀ k s, N.Hops k (inject v) s → s.copies ≠ [] → ∃ t, N.Hop s t
  sound : ∀ k s, N.Hops k (inject v) s → List.Subperm s.delivered ds
  complete : ∀ k s, N.Hops k (inject v) s → s.copies = [] → List.Perm s.delivered ds

variable {N}

theorem Dies.succ {n : Nat} {v : ν} (h : N.Dies n v) : N.Dies (n + 1) v := by
  induction n generalizing v with
  | zero => cases h
  | succ n ih =>
    intro w hw
    exact ih (h w hw)

/-- Past its last hop a packet reaches nothing more. -/
theorem Dies.arrivals_succ {n : Nat} {v : ν} (h : N.Dies n v) :
    N.arrivals (n + 1) v = N.arrivals n v := by
  induction n generalizing v with
  | zero => cases h
  | succ n ih =>
    have hnext : (N.next v).flatMap (N.arrivals (n + 1)) = (N.next v).flatMap (N.arrivals n) :=
      List.flatMap_congr fun w hw => ih (h w hw)
    rw [arrivals, hnext, arrivals]

theorem Dies.cost_succ {n : Nat} {v : ν} (h : N.Dies n v) : N.cost (n + 1) v = N.cost n v := by
  induction n generalizing v with
  | zero => cases h
  | succ n ih =>
    have hnext : (N.next v).map (N.cost (n + 1)) = (N.next v).map (N.cost n) :=
      List.map_congr_left fun w hw => ih (h w hw)
    rw [cost, hnext, cost]

/-! ## Schedules -/

/-- What has been and what will be delivered. -/
def pending (N : Fabric ν δ) (n : Nat) (s : Flight ν δ) : List δ :=
  s.delivered ++ s.copies.flatMap (N.arrivals n)

/-- The hops that are left. -/
def work (N : Fabric ν δ) (n : Nat) (s : Flight ν δ) : Nat := (s.copies.map (N.cost n)).sum

/-- A hop keeps what is pending and uses up one hop of the work. -/
theorem Hop.step {n : Nat} {s t : Flight ν δ} (h : N.Hop s t) (hd : ∀ v ∈ s.copies, N.Dies n v) :
    (∀ v ∈ t.copies, N.Dies n v) ∧ List.Perm (N.pending n t) (N.pending n s) ∧
      N.work n t + 1 = N.work n s := by
  obtain ⟨l, v, l', d⟩ := h
  have hv : N.Dies n v := hd v (by simp)
  cases n with
  | zero => cases hv
  | succ n =>
    have hnext : (N.next v).flatMap (N.arrivals (n + 1)) = (N.next v).flatMap (N.arrivals n) :=
      List.flatMap_congr fun w hw => (hv w hw).arrivals_succ
    have hcost : (N.next v).map (N.cost (n + 1)) = (N.next v).map (N.cost n) :=
      List.map_congr_left fun w hw => (hv w hw).cost_succ
    refine ⟨fun w hw => ?_, ?_, ?_⟩
    · rcases List.mem_append.mp hw with hw | hw
      · rcases List.mem_append.mp hw with hw | hw
        · exact hd w (by simp [hw])
        · exact (hv w hw).succ
      · exact hd w (by simp [hw])
    · have hv' : N.arrivals (n + 1) v = N.sinks v ++ (N.next v).flatMap (N.arrivals (n + 1)) := by
        rw [hnext, arrivals]
      simp only [pending, List.flatMap_append, List.flatMap_cons, hv', List.append_assoc]
      exact (List.perm_append_comm_assoc _ _ _).append_left d
    · have hv' : N.cost (n + 1) v = ((N.next v).map (N.cost (n + 1))).sum + 1 := by
        rw [hcost, cost]
      simp only [work, List.map_append, List.map_cons, List.sum_append, List.sum_cons, hv']
      omega

theorem Hops.invariant {n k : Nat} {v : ν} {s : Flight ν δ} (h : N.Hops k (inject v) s)
    (hd : N.Dies n v) : (∀ w ∈ s.copies, N.Dies n w) ∧
      List.Perm (N.pending n s) (N.arrivals n v) ∧ N.work n s + k = N.cost n v := by
  generalize hs : inject v = s₀ at h
  induction h with
  | refl =>
    subst hs
    refine ⟨fun w hw => ?_, ?_, ?_⟩
    · obtain rfl := List.mem_singleton.mp hw
      exact hd
    · simp [pending, inject]
    · simp [work, inject]
  | tail _ hop ih =>
    obtain ⟨hdies, hperm, hwork⟩ := ih hs
    obtain ⟨hdies', hperm', hwork'⟩ := hop.step hdies
    exact ⟨hdies', hperm'.trans hperm, by omega⟩

/-- A packet that dies out reaches the sinks on its paths. -/
theorem Dies.delivers {n : Nat} {v : ν} (hd : N.Dies n v) : N.Delivers v (N.arrivals n v) where
  ends := by
    refine ⟨N.cost n v, fun k s h => ?_⟩
    have hwork := (h.invariant hd).2.2
    omega
  moves k s _ hne := by
    obtain ⟨copies, d⟩ := s
    cases copies with
    | nil => exact absurd rfl hne
    | cons w l => exact ⟨_, Hop.mk [] w l d⟩
  sound k s h := by
    have hsub : List.Subperm s.delivered (N.pending n s) :=
      (List.sublist_append_left _ _).subperm
    exact hsub.trans (h.invariant hd).2.1.subperm
  complete k s h he := by
    have hperm := (h.invariant hd).2.1
    rw [pending, he, List.flatMap_nil, List.append_nil] at hperm
    exact hperm

theorem Delivers.perm {v : ν} {ds ds' : List δ} (h : N.Delivers v ds) (hp : List.Perm ds ds') :
    N.Delivers v ds' :=
  ⟨h.ends, h.moves, fun k s hs => (h.sound k s hs).trans hp.subperm,
    fun k s hs he => (h.complete k s hs he).trans hp⟩

end Fabric

end BallController.Lib
