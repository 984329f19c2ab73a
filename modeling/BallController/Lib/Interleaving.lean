import BallController.Lib.Machine

/-! Interleavings of a machine. Every event is on some lanes; events on no common
lane commute in the states that the machine can reach. Then a run is determined
by what happens on each lane: how the lanes are interleaved makes no difference. -/

namespace BallController.Lib

variable {σ ε κ : Type}

/-- Events on no common lane commute, as long as the invariant `I` holds. -/
structure Independent (step : σ → ε → σ) (lane : κ → ε → Bool) (I : σ → Prop) : Prop where
  keep : ∀ s e, I s → I (step s e)
  on : ∀ e, ∃ k, lane k e = true
  comm : ∀ s d e, I s → (∀ k, lane k d = true → lane k e = false) →
    step (step s d) e = step (step s e) d

/-- The two runs are the same on every lane. -/
def SameLanes (lane : κ → ε → Bool) (evs evs' : List ε) : Prop :=
  ∀ k, evs.filter (lane k) = evs'.filter (lane k)

variable {step : σ → ε → σ} {lane : κ → ε → Bool} {I : σ → Prop}

/-- The first event of a run is in the other one, after events on other lanes only. -/
theorem SameLanes.split {e : ε} {evs evs' : List ε} (h : SameLanes lane (e :: evs) evs')
    (he : ∃ k, lane k e = true) : ∃ pre post, evs' = pre ++ e :: post ∧
      ∀ d ∈ pre, ∀ k, lane k e = true → lane k d = false := by
  obtain ⟨k, hk⟩ := he
  have hmem : e ∈ evs'.filter (lane k) := by
    rw [← h k, List.filter_cons_of_pos hk]
    exact List.mem_cons_self
  obtain ⟨pre, post, rfl, hnot⟩ := List.eq_append_cons_of_mem (List.mem_filter.mp hmem).1
  refine ⟨pre, post, rfl, fun d hd k hk => ?_⟩
  by_contra hne
  have hon : d ∈ pre.filter (lane k) := List.mem_filter.mpr ⟨hd, Bool.eq_true_of_not_eq_false hne⟩
  have hhead := h k
  rw [List.filter_cons_of_pos hk, List.filter_append] at hhead
  -- the lane of `e` would begin with an event of `pre`
  cases hpre : pre.filter (lane k) with
  | nil =>
    rw [hpre] at hon
    cases hon
  | cons c rest =>
    rw [hpre] at hhead
    obtain ⟨rfl, -⟩ := List.cons.inj hhead
    have hc : e ∈ pre.filter (lane k) := hpre ▸ List.mem_cons_self
    exact hnot (List.mem_filter.mp hc).1

/-- What is left after the first event is the same on every lane. -/
theorem SameLanes.tail {e : ε} {evs pre post : List ε}
    (h : SameLanes lane (e :: evs) (pre ++ e :: post))
    (hpre : ∀ d ∈ pre, ∀ k, lane k e = true → lane k d = false) :
    SameLanes lane evs (pre ++ post) := by
  intro k
  have hk := h k
  rw [List.filter_append] at hk ⊢
  cases he : lane k e with
  | true =>
    have hnil : pre.filter (lane k) = [] :=
      List.filter_eq_nil_iff.mpr fun d hd => by simp [hpre d hd k he]
    rw [List.filter_cons_of_pos he, List.filter_cons_of_pos he, hnil, List.nil_append] at hk
    rw [hnil, List.nil_append]
    exact (List.cons.inj hk).2
  | false =>
    rwa [List.filter_cons_of_neg (by simp [he]), List.filter_cons_of_neg (by simp [he])] at hk

namespace Independent

/-- An event may be moved before events that are on none of its lanes. -/
theorem exec_move (h : Independent step lane I) {s : σ} (h0 : I s) {e : ε} {pre : List ε}
    (hpre : ∀ d ∈ pre, ∀ k, lane k e = true → lane k d = false) (post : List ε) :
    exec step s (pre ++ e :: post) = exec step s (e :: (pre ++ post)) := by
  induction pre generalizing s with
  | nil => rfl
  | cons d pre ih =>
    obtain ⟨hd, hrest⟩ := List.forall_mem_cons.mp hpre
    have hcomm : step (step s d) e = step (step s e) d := (h.comm s e d h0 hd).symm
    rw [List.cons_append, exec_cons, ih (h.keep s d h0) hrest, exec_cons, hcomm]
    rfl

/-- Run rule: the order of events on different lanes makes no difference. -/
theorem exec_eq (h : Independent step lane I) {s : σ} (h0 : I s) {evs evs' : List ε}
    (hl : SameLanes lane evs evs') : exec step s evs = exec step s evs' := by
  induction evs generalizing s evs' with
  | nil =>
    cases evs' with
    | nil => rfl
    | cons d evs' =>
      obtain ⟨k, hk⟩ := h.on d
      have hd := hl k
      rw [List.filter_cons_of_pos hk] at hd
      cases hd
  | cons e evs ih =>
    obtain ⟨pre, post, rfl, hpre⟩ := hl.split (h.on e)
    rw [h.exec_move h0 hpre, exec_cons, exec_cons]
    exact ih (h.keep s e h0) (hl.tail hpre)

end Independent

end BallController.Lib
