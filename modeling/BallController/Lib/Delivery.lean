import BallController.Lib.Machine

/-! Duplicate suppression by a stamp that may wrap around. Messages are numbered
in sending order. A receiver remembers the stamp of the message it handled last
and skips a message with the same stamp. If messages arrive in sending order and
stamps that meet are told apart, every message that arrives is handled once. -/

namespace BallController.Lib

variable {σ τ : Type}

/-- Handle the message `i` unless its stamp is the one seen last. -/
def suppress [DecidableEq τ] (stamp : Nat → τ) (seen : σ → τ) (handle : σ → Nat → σ) (s : σ)
    (i : Nat) : σ := if stamp i ≠ seen s then handle s i else s

/-- Arrivals in sending order, any number of copies in a row, and fewer than `w`
messages missing between two that arrive. -/
def InOrder (w : Nat) (js : List Nat) : Prop := js.IsChain fun a b => a ≤ b ∧ b ≤ a + w

theorem InOrder.sorted {w : Nat} {js : List Nat} (h : InOrder w js) : js.Pairwise (· ≤ ·) := by
  have hle : js.IsChain (· ≤ ·) := List.IsChain.imp (fun _ _ hab => hab.1) h
  exact List.isChain_iff_pairwise.mp hle

/-- The distinct messages in sending order. -/
theorem InOrder.dedup_sorted {w : Nat} {js : List Nat} (h : InOrder w js) :
    js.dedup.Pairwise (· < ·) := by
  have hle : js.dedup.Pairwise (· ≤ ·) := h.sorted.sublist (List.dedup_sublist js)
  exact (hle.and js.nodup_dedup).imp fun hab => lt_of_le_of_ne hab.1 hab.2

/-- Without losses the messages seen so far are an initial segment. -/
theorem InOrder.destutter_eq_range' {a : Nat} {js : List Nat} (h : InOrder 1 (a :: js)) :
    List.destutter' (· ≠ ·) a js = List.range' a (List.destutter' (· ≠ ·) a js).length := by
  induction js generalizing a with
  | nil => rfl
  | cons b js ih =>
    obtain ⟨hab, hrest⟩ := List.isChain_cons_cons.mp h
    by_cases he : a = b
    · subst he
      rw [List.destutter'_cons_neg _ (not_not.mpr rfl)]
      exact ih hrest
    · obtain rfl : b = a + 1 := by omega
      rw [List.destutter'_cons_pos _ he, List.length_cons, List.range'_succ]
      exact congrArg (List.cons a) (ih hrest)

theorem InOrder.dedup_eq_range {js : List Nat} (h : InOrder 1 js) (h0 : ∀ j ∈ js.head?, j = 0) :
    js.dedup = List.range js.dedup.length := by
  rw [← List.Pairwise.destutter_eq_dedup h.sorted, List.range_eq_range']
  cases js with
  | nil => rfl
  | cons a js =>
    obtain rfl : a = 0 := h0 a rfl
    exact h.destutter_eq_range'

/-- How many messages before the `j`-th have not arrived. -/
def lost (js : List Nat) (j : Nat) : Nat := ((Finset.range j).filter fun i => i ∉ js).card

/-- The `k`-th distinct message to arrive has `k` others before it. -/
theorem InOrder.add_lost {w : Nat} {js : List Nat} (h : InOrder w js) {k j : Nat}
    (hk : js.dedup[k]? = some j) : k + lost js j = j := by
  obtain ⟨hlt, rfl⟩ := List.getElem?_eq_some_iff.mp hk
  have hsorted := List.pairwise_iff_getElem.mp h.dedup_sorted
  have hcount : ((Finset.range js.dedup[k]).filter fun i => i ∈ js).card = k := by
    have hset : (Finset.range js.dedup[k]).filter (fun i => i ∈ js) = (js.dedup.take k).toFinset := by
      ext i
      rw [Finset.mem_filter, Finset.mem_range, List.mem_toFinset, List.mem_take_iff_getElem,
        ← List.mem_dedup, List.mem_iff_getElem]
      constructor
      · rintro ⟨hi, a, ha, rfl⟩
        refine ⟨a, lt_min (lt_of_not_ge fun hka => ?_) ha, rfl⟩
        rcases eq_or_lt_of_le hka with rfl | hka
        · exact lt_irrefl _ hi
        · exact absurd (hsorted k a hlt ha hka) hi.asymm
      · rintro ⟨a, ha, rfl⟩
        have ha' := lt_min_iff.mp ha
        exact ⟨hsorted a k ha'.2 hlt ha'.1, a, ha'.2, rfl⟩
    rw [hset, List.toFinset_card_of_nodup (js.nodup_dedup.sublist (List.take_sublist k _)),
      List.length_take, min_eq_left hlt.le]
  have hsplit := Finset.card_filter_add_card_filter_not (s := Finset.range js.dedup[k]) fun i => i ∈ js
  rwa [hcount, Finset.card_range] at hsplit

section Suppress

variable [DecidableEq τ] {stamp : Nat → τ} {seen : σ → τ} {handle : σ → Nat → σ}

/-- A copy of the message seen last changes nothing. -/
theorem suppress_of_seen {s : σ} {i : Nat} (h : seen s = stamp i) :
    suppress stamp seen handle s i = s := if_neg (not_not.mpr h.symm)

theorem suppress_of_ne {s : σ} {i : Nat} (h : stamp i ≠ seen s) :
    suppress stamp seen handle s i = handle s i := if_pos h

theorem seen_suppress {i : Nat} (hseen : ∀ s, seen (handle s i) = stamp i) (s : σ) :
    seen (suppress stamp seen handle s i) = stamp i := by
  unfold suppress
  split
  · exact hseen s
  · next h => exact (not_not.mp h).symm

/-- The receiver after the message `a`: the arrivals that follow are handled once each. -/
theorem exec_suppress_from {w a : Nat} {js : List Nat}
    (hseen : ∀ s, ∀ j ∈ a :: js, seen (handle s j) = stamp j)
    (hsep : ∀ i ∈ a :: js, ∀ j ∈ a :: js, i < j → j ≤ i + w → stamp j ≠ stamp i)
    (hjs : InOrder w (a :: js)) (s : σ) :
    exec (suppress stamp seen handle) (handle s a) js =
      exec handle s (List.destutter' (· ≠ ·) a js) := by
  induction js generalizing a s with
  | nil => rfl
  | cons b js ih =>
    obtain ⟨hab, hrest⟩ := List.isChain_cons_cons.mp hjs
    have ha : seen (handle s a) = stamp a := hseen s a List.mem_cons_self
    have hsub : ∀ j ∈ b :: js, j ∈ a :: b :: js := fun j hj => List.mem_cons_of_mem a hj
    by_cases he : a = b
    · subst he
      rw [exec_cons, suppress_of_seen ha, List.destutter'_cons_neg _ (not_not.mpr rfl)]
      exact ih (fun s j hj => hseen s j (hsub j hj))
        (fun i hi j hj => hsep i (hsub i hi) j (hsub j hj)) hrest s
    · have hlt : a < b := lt_of_le_of_ne hab.1 he
      have hne : stamp b ≠ seen (handle s a) := by
        rw [ha]
        exact hsep a List.mem_cons_self b (hsub b List.mem_cons_self) hlt hab.2
      rw [exec_cons, suppress_of_ne hne, List.destutter'_cons_pos _ he, exec_cons]
      exact ih (fun s j hj => hseen s j (hsub j hj))
        (fun i hi j hj => hsep i (hsub i hi) j (hsub j hj)) hrest (handle s a)

/-- Every message that arrives is handled exactly once, in sending order. -/
theorem exec_suppress {w : Nat} {js : List Nat}
    (hseen : ∀ s, ∀ j ∈ js, seen (handle s j) = stamp j)
    (hsep : ∀ i ∈ js, ∀ j ∈ js, i < j → j ≤ i + w → stamp j ≠ stamp i) {s : σ}
    (hfirst : ∀ j ∈ js.head?, stamp j ≠ seen s) (hjs : InOrder w js) :
    exec (suppress stamp seen handle) s js = exec handle s js.dedup := by
  rw [← List.Pairwise.destutter_eq_dedup hjs.sorted]
  cases js with
  | nil => rfl
  | cons a js =>
    rw [exec_cons, suppress_of_ne (hfirst a rfl)]
    exact exec_suppress_from hseen hsep hjs s

end Suppress

end BallController.Lib
