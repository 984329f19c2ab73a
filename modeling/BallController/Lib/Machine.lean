import Mathlib

/-! Event-driven machines: a step function on states, runs over event lists,
what a run emits, and the two induction rules, for invariants and for
conditions that hold along a run. -/

namespace BallController.Lib

variable {σ ε ω : Type} (step : σ → ε → σ)

/-- The state after the events `evs`. -/
def exec (s : σ) (evs : List ε) : σ := evs.foldl step s

/-- `P` holds of every event of the run and the state in which it happens. -/
def Along (P : σ → ε → Prop) : σ → List ε → Prop
  | _, [] => True
  | s, e :: evs => P s e ∧ Along P (step s e) evs

/-- What the run emits, oldest first, when the event `e` emits `out s e`. -/
def emitted (out : σ → ε → List ω) : σ → List ε → List ω
  | _, [] => []
  | s, e :: evs => out s e ++ emitted out (step s e) evs

@[simp] theorem exec_nil (s : σ) : exec step s [] = s := rfl

@[simp] theorem exec_cons (s : σ) (e : ε) (evs : List ε) :
    exec step s (e :: evs) = exec step (step s e) evs := rfl

theorem exec_append (s : σ) (evs evs' : List ε) :
    exec step s (evs ++ evs') = exec step (exec step s evs) evs' := List.foldl_append

@[simp] theorem exec_concat (s : σ) (evs : List ε) (e : ε) :
    exec step s (evs ++ [e]) = step (exec step s evs) e := exec_append step s evs [e]

theorem exec_map {ι : Type} (f : ι → ε) (s : σ) (is : List ι) :
    exec step s (is.map f) = exec (fun s i => step s (f i)) s is := List.foldl_map

/-- Machines that agree on the events of a run end in the same state. -/
theorem exec_congr {step' : σ → ε → σ} {evs : List ε} (h : ∀ e ∈ evs, ∀ s, step s e = step' s e)
    (s : σ) : exec step s evs = exec step' s evs := by
  induction evs generalizing s with
  | nil => rfl
  | cons e evs ih =>
    obtain ⟨he, hevs⟩ := List.forall_mem_cons.mp h
    rw [exec_cons, exec_cons, he, ih hevs]

variable {step}

/-- Run rule: what every step keeps, every run keeps. -/
theorem exec_induction {P : σ → Prop} (hs : ∀ s e, P s → P (step s e)) {s : σ} (h0 : P s)
    (evs : List ε) : P (exec step s evs) := by
  induction evs generalizing s with
  | nil => exact h0
  | cons e evs ih => exact ih (hs s e h0)

/-- Run rule under a condition on the steps. -/
theorem exec_induction_along {P : σ → Prop} {Q : σ → ε → Prop}
    (hs : ∀ s e, P s → Q s e → P (step s e)) {s : σ} (h0 : P s) {evs : List ε}
    (hq : Along step Q s evs) : P (exec step s evs) := by
  induction evs generalizing s with
  | nil => exact h0
  | cons e evs ih => exact ih (hs s e h0 hq.1) hq.2

/-- Simulation rule: related states stay related, under a condition on the steps
of the first machine. -/
theorem exec_simulation {τ : Type} {step' : τ → ε → τ} {R : σ → τ → Prop} {Q : σ → ε → Prop}
    (hs : ∀ s t e, R s t → Q s e → R (step s e) (step' t e)) {s : σ} {t : τ} (h0 : R s t)
    {evs : List ε} (hq : Along step Q s evs) : R (exec step s evs) (exec step' t evs) := by
  induction evs generalizing s t with
  | nil => exact h0
  | cons e evs ih => exact ih (hs s t e h0 hq.1) hq.2

/-- Projection rule: a part of the state that every event either leaves alone or
moves by what is decoded from it runs over the decoded events. -/
theorem exec_filterMap {τ ι : Type} {view : σ → τ} {move : τ → ι → τ} {decode : ε → Option ι}
    (hs : ∀ s e, view (step s e) = (decode e).elim (view s) (move (view s))) (s : σ) (evs : List ε) :
    view (exec step s evs) = exec move (view s) (evs.filterMap decode) := by
  induction evs generalizing s with
  | nil => rfl
  | cons e evs ih =>
    rw [exec_cons, ih, hs]
    cases h : decode e with
    | none => rw [List.filterMap_cons_none h, Option.elim_none]
    | some i => rw [List.filterMap_cons_some h, Option.elim_some, exec_cons]

/-- Events that change nothing may be left out. -/
theorem exec_filter {p : ε → Bool} (h : ∀ s e, p e = false → step s e = s) (s : σ)
    (evs : List ε) : exec step s (evs.filter p) = exec step s evs := by
  induction evs generalizing s with
  | nil => rfl
  | cons e evs ih =>
    cases he : p e with
    | false => rw [List.filter_cons_of_neg (by simp [he]), ih, exec_cons, h s e he]
    | true => rw [List.filter_cons_of_pos he, exec_cons, exec_cons, ih]

/-- The conditions on what is decoded hold along both runs or along none. -/
theorem along_filterMap {τ ι : Type} {view : σ → τ} {move : τ → ι → τ} {decode : ε → Option ι}
    {P : τ → ι → Prop} (hs : ∀ s e, view (step s e) = (decode e).elim (view s) (move (view s)))
    (s : σ) (evs : List ε) :
    Along step (fun s e => ∀ i ∈ decode e, P (view s) i) s evs ↔
      Along move P (view s) (evs.filterMap decode) := by
  induction evs generalizing s with
  | nil => exact Iff.rfl
  | cons e evs ih =>
    rw [Along, ih, hs]
    cases h : decode e with
    | none => simp [List.filterMap_cons_none h]
    | some i => simp [List.filterMap_cons_some h, Along]

/-- Machines that agree wherever a condition holds make the same run as long as it
holds, ... -/
theorem Along.exec_eq {step' : σ → ε → σ} {P : σ → ε → Prop}
    (hp : ∀ s e, P s e → step s e = step' s e) {s : σ} {evs : List ε} (h : Along step P s evs) :
    exec step s evs = exec step' s evs := by
  induction evs generalizing s with
  | nil => rfl
  | cons e evs ih => rw [exec_cons, exec_cons, ih h.2, hp s e h.1]

/-- ... under the same conditions ... -/
theorem Along.along_eq {step' : σ → ε → σ} {P Q : σ → ε → Prop}
    (hp : ∀ s e, P s e → step s e = step' s e) {s : σ} {evs : List ε} (h : Along step P s evs)
    (hq : Along step Q s evs) : Along step' Q s evs := by
  induction evs generalizing s with
  | nil => trivial
  | cons e evs ih =>
    refine ⟨hq.1, ?_⟩
    rw [← hp s e h.1]
    exact ih h.2 hq.2

/-- ... and emit the same. -/
theorem Along.emitted_eq {step' : σ → ε → σ} {P : σ → ε → Prop} (out : σ → ε → List ω)
    (hp : ∀ s e, P s e → step s e = step' s e) {s : σ} {evs : List ε} (h : Along step P s evs) :
    emitted step out s evs = emitted step' out s evs := by
  induction evs generalizing s with
  | nil => rfl
  | cons e evs ih => rw [emitted, emitted, ih h.2, hp s e h.1]

theorem along_append {P : σ → ε → Prop} {s : σ} {evs evs' : List ε} :
    Along step P s (evs ++ evs') ↔ Along step P s evs ∧ Along step P (exec step s evs) evs' := by
  induction evs generalizing s with
  | nil => simp [Along]
  | cons e evs ih => simp only [List.cons_append, Along, exec_cons, ih, and_assoc]

/-- A condition on the events alone. -/
theorem along_events {P : ε → Prop} {s : σ} {evs : List ε} :
    Along step (fun _ e => P e) s evs ↔ ∀ e ∈ evs, P e := by
  induction evs generalizing s with
  | nil => simp [Along]
  | cons e evs ih => rw [Along, ih, List.forall_mem_cons]

theorem Along.imp {P Q : σ → ε → Prop} (hpq : ∀ s e, P s e → Q s e) {s : σ} {evs : List ε}
    (h : Along step P s evs) : Along step Q s evs := by
  induction evs generalizing s with
  | nil => trivial
  | cons e evs ih => exact ⟨hpq s e h.1, ih h.2⟩

theorem Along.and {P Q : σ → ε → Prop} {s : σ} {evs : List ε} (hp : Along step P s evs)
    (hq : Along step Q s evs) : Along step (fun s e => P s e ∧ Q s e) s evs := by
  induction evs generalizing s with
  | nil => trivial
  | cons e evs ih => exact ⟨⟨hp.1, hq.1⟩, ih hp.2 hq.2⟩

/-- What an invariant implies of every event holds along every run. -/
theorem along_of_invariant {P : σ → ε → Prop} {I : σ → Prop} (hs : ∀ s e, I s → I (step s e))
    (hp : ∀ s e, I s → P s e) {s : σ} (h0 : I s) (evs : List ε) : Along step P s evs := by
  induction evs generalizing s with
  | nil => trivial
  | cons e evs ih => exact ⟨hp s e h0, ih (hs s e h0)⟩

/-- Related states under equivalent conditions. -/
theorem along_simulation {τ : Type} {step' : τ → ε → τ} {R : σ → τ → Prop} {P Q : σ → ε → Prop}
    {P' : τ → ε → Prop} (hs : ∀ s t e, R s t → Q s e → R (step s e) (step' t e))
    (hp : ∀ s t e, R s t → (P s e ↔ P' t e)) {s : σ} {t : τ} (h0 : R s t) {evs : List ε}
    (hq : Along step Q s evs) : Along step P s evs ↔ Along step' P' t evs := by
  induction evs generalizing s t with
  | nil => exact Iff.rfl
  | cons e evs ih => exact and_congr (hp s t e h0) (ih (hs s t e h0 hq.1) hq.2)

/-- An invariant, kept as long as the conditions hold, turns one into the other. -/
theorem along_congr {P Q : σ → ε → Prop} {I : σ → Prop}
    (hs : ∀ s e, I s → Q s e → I (step s e)) (hpq : ∀ s e, I s → (P s e ↔ Q s e)) {s : σ}
    (h0 : I s) (evs : List ε) : Along step P s evs ↔ Along step Q s evs := by
  induction evs generalizing s with
  | nil => exact Iff.rfl
  | cons e evs ih =>
    refine (and_congr_left' (hpq s e h0)).trans (and_congr_right fun hq => ?_)
    exact ih (hs s e h0 hq)

/-- Run rule for events that are counted: an invariant of the count. -/
theorem exec_counted {P : ℕ → σ → Prop} {count : ε → Option ℕ}
    (hother : ∀ k s e, count e = none → P k s → P k (step s e))
    (hnext : ∀ k s e, count e = some (k + 1) → P k s → P (k + 1) (step s e)) {s : σ} (h0 : P 0 s)
    {evs : List ε} {k : ℕ} (h : evs.filterMap count = List.range' 1 k) : P k (exec step s evs) := by
  induction evs using List.reverseRecOn generalizing k with
  | nil =>
    cases k with
    | zero => exact h0
    | succ k => cases h
  | append_singleton evs e ih =>
    rw [List.filterMap_append] at h
    rw [exec_concat]
    cases he : count e with
    | none =>
      rw [List.filterMap_cons_none he, List.filterMap_nil, List.append_nil] at h
      exact hother k _ e he (ih h)
    | some t =>
      rw [List.filterMap_cons_some he, List.filterMap_nil] at h
      cases k with
      | zero => exact absurd h (by simp)
      | succ k =>
        rw [List.range'_1_concat] at h
        obtain ⟨hinit, ht⟩ := List.append_inj' h rfl
        obtain rfl : t = k + 1 := (List.singleton_injective ht).trans (Nat.add_comm 1 k)
        exact hnext k _ e he (ih hinit)

theorem emitted_append (out : σ → ε → List ω) (s : σ) (evs evs' : List ε) :
    emitted step out s (evs ++ evs') =
      emitted step out s evs ++ emitted step out (exec step s evs) evs' := by
  induction evs generalizing s with
  | nil => rfl
  | cons e evs ih => simp only [List.cons_append, emitted, ih, exec_cons, List.append_assoc]

theorem emitted_concat (out : σ → ε → List ω) (s : σ) (evs : List ε) (e : ε) :
    emitted step out s (evs ++ [e]) = emitted step out s evs ++ out (exec step s evs) e := by
  rw [emitted_append, emitted, emitted, List.append_nil]

/-- Projection rule: a part of the state that moves by what the events emit. -/
theorem exec_emitted {τ : Type} {view : σ → τ} {move : τ → ω → τ} {out : σ → ε → List ω}
    (hs : ∀ s e, view (step s e) = exec move (view s) (out s e)) (s : σ) (evs : List ε) :
    view (exec step s evs) = exec move (view s) (emitted step out s evs) := by
  induction evs generalizing s with
  | nil => rfl
  | cons e evs ih => rw [exec_cons, ih, hs, emitted, exec_append]

/-- Two runs that emit the same agree on what moves by it. -/
theorem exec_emitted_congr {τ : Type} {view : σ → τ} {move : τ → ω → τ} {out : σ → ε → List ω}
    (hs : ∀ s e, view (step s e) = exec move (view s) (out s e)) {s s' : σ} (h : view s = view s')
    {evs evs' : List ε} (ho : emitted step out s evs = emitted step out s' evs') :
    view (exec step s evs) = view (exec step s' evs') := by
  rw [exec_emitted hs, exec_emitted hs, h, ho]

/-- A log to which every event appends what it emits. -/
theorem log_exec (log : σ → List ω) {out : σ → ε → List ω}
    (h : ∀ s e, log (step s e) = log s ++ out s e) (s : σ) (evs : List ε) :
    log (exec step s evs) = log s ++ emitted step out s evs := by
  induction evs generalizing s with
  | nil => simp [emitted]
  | cons e evs ih => rw [exec_cons, ih, h, emitted, List.append_assoc]

variable {ω' : Type}

theorem emitted_map (f : ω → ω') (out : σ → ε → List ω) (s : σ) (evs : List ε) :
    (emitted step out s evs).map f = emitted step (fun s e => (out s e).map f) s evs := by
  induction evs generalizing s with
  | nil => rfl
  | cons e evs ih => simp only [emitted, List.map_append, ih]

theorem forall_emitted {R : ω → Prop} {out : σ → ε → List ω} {s : σ} {evs : List ε} :
    (∀ o ∈ emitted step out s evs, R o) ↔ Along step (fun s e => ∀ o ∈ out s e, R o) s evs := by
  induction evs generalizing s with
  | nil => simp [emitted, Along]
  | cons e evs ih => simp only [emitted, Along, List.forall_mem_append, ih]

/-- Simulation rule for logs: related states emit the same. -/
theorem emitted_simulation {τ : Type} {step' : τ → ε → τ} {out : σ → ε → List ω}
    {out' : τ → ε → List ω} {R : σ → τ → Prop} {Q : ε → Prop}
    (hs : ∀ s t e, R s t → Q e → R (step s e) (step' t e) ∧ out s e = out' t e) {s : σ} {t : τ}
    (h0 : R s t) {evs : List ε} (hq : ∀ e ∈ evs, Q e) :
    emitted step out s evs = emitted step' out' t evs := by
  induction evs generalizing s t with
  | nil => rfl
  | cons e evs ih =>
    rw [List.forall_mem_cons] at hq
    obtain ⟨hR, ho⟩ := hs s t e h0 hq.1
    rw [emitted, emitted, ho, ih hR hq.2]

theorem emitted_congr {I : σ → Prop} {out out' : σ → ε → List ω} (hs : ∀ s e, I s → I (step s e))
    (h : ∀ s e, I s → out s e = out' s e) {s : σ} (h0 : I s) (evs : List ε) :
    emitted step out s evs = emitted step out' s evs := by
  induction evs generalizing s with
  | nil => rfl
  | cons e evs ih => rw [emitted, emitted, h s e h0, ih (hs s e h0)]

/-- Two logs whose entries correspond event by event correspond as a whole. -/
theorem forall₂_emitted {R : ω → ω' → Prop} {I : σ → Prop} {out : σ → ε → List ω}
    {out' : σ → ε → List ω'} (hs : ∀ s e, I s → I (step s e))
    (hr : ∀ s e, I s → List.Forall₂ R (out s e) (out' s e)) {s : σ} (h0 : I s) (evs : List ε) :
    List.Forall₂ R (emitted step out s evs) (emitted step out' s evs) := by
  induction evs generalizing s with
  | nil => exact List.Forall₂.nil
  | cons e evs ih => exact List.rel_append (hr s e h0) (ih (hs s e h0))

end BallController.Lib
