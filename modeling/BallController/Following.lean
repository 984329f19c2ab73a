import BallController.Sampling

/-! When the tracker follows the ball to a new place. Samples at one point pull
the mean there only while each of them is accepted, and the filter compares with
the mean, which older samples leaving the window can move away from the point.
Exactly when all 16 samples are accepted is a condition on the 16 mixed
windows; a window that lies near the point as a whole satisfies it. -/

namespace BallController
open Lib Spin1Math

namespace History

/-- Every mixture of the window with samples at `p` has its mean near `p`. -/
def StaysNear (h : History) (p : Int × Int) : Prop :=
  ∀ k < 16, sqDist (pos (List.replicate k p ++ h)) p < 10000

/-- Samples at one point are all taken when each finds the mean of the window
mixed with those before it near enough. -/
theorem along_replicate (h : History) (p : Int × Int) (n : Nat) :
    Along offer Takes h (List.replicate n p) ↔ ∀ k < n, Takes (List.replicate k p ++ h) p := by
  induction n generalizing h with
  | zero => simp [Along]
  | succ n ih =>
    rw [List.replicate_succ, Along, Nat.forall_lt_succ_left]
    refine and_congr_right fun hp => ?_
    rw [offer, if_pos hp, ih]
    refine forall₂_congr fun k _ => ?_
    rw [List.replicate_succ', List.append_assoc, List.singleton_append]

theorem exec_replicate {h : History} {p : Int × Int} {n : Nat}
    (ha : Along offer Takes h (List.replicate n p)) :
    exec offer h (List.replicate n p) = List.replicate n p ++ h := by
  induction n generalizing h with
  | zero => rfl
  | succ n ih =>
    rw [List.replicate_succ, Along, offer, if_pos ha.1] at ha
    rw [List.replicate_succ, exec_cons, offer, if_pos ha.1, ih ha.2, ← List.replicate_succ,
      List.replicate_succ', List.append_assoc, List.singleton_append]

/-- Past the first 16 samples the filter is always on. -/
theorem takes_iff {h : History} (hl : 16 ≤ h.length) (p : Int × Int) :
    h.Takes p ↔ sqDist h.pos p < 10000 := or_iff_right (Nat.not_lt.mpr hl)

theorem along_iff_staysNear {h : History} (hl : 16 ≤ h.length) (p : Int × Int) :
    Along offer Takes h (List.replicate 16 p) ↔ h.StaysNear p := by
  rw [along_replicate]
  refine forall₂_congr fun k _ => takes_iff ?_ p
  rw [List.length_append]
  omega

/-- After 16 samples at `p` the position is `p`. -/
theorem pos_replicate (h : History) (p : Int × Int) : pos (List.replicate 16 p ++ h) = p := by
  simp only [pos, xs, ys, List.map_append, List.map_replicate]
  exact Prod.ext (windowMean_replicate (by decide) _ _) (windowMean_replicate (by decide) _ _)

/-! ## A window near the point -/

/-- Rounding a mean of 16 down moves a vector of length 98 by less than 2. -/
theorem sq_add_sq_lt_of_floor {a b u v : Int} (hab : a ^ 2 + b ^ 2 ≤ (16 * 98) ^ 2)
    (hu : 0 ≤ a - 16 * u ∧ a - 16 * u ≤ 15) (hv : 0 ≤ b - 16 * v ∧ b - 16 * v ≤ 15) :
    u ^ 2 + v ^ 2 < 10000 := by
  have habs : |a| + |b| ≤ 2218 := by
    have hsq : (|a| + |b|) ^ 2 ≤ 2 * (a ^ 2 + b ^ 2) := by
      nlinarith [sq_nonneg (|a| - |b|), sq_abs a, sq_abs b]
    nlinarith [abs_nonneg a, abs_nonneg b]
  have ha := neg_abs_le a
  have hb := neg_abs_le b
  have hu2 : (16 * u) ^ 2 ≤ a ^ 2 + 30 * |a| + 225 := by
    nlinarith [le_abs_self a]
  have hv2 : (16 * v) ^ 2 ≤ b ^ 2 + 30 * |b| + 225 := by
    nlinarith [le_abs_self b]
  nlinarith

/-- The mean of a window within distance 98 of `p` is accepted from `p`. -/
theorem sqDist_pos_lt {h : History} (hl : 16 ≤ h.length) {p : Int × Int}
    (hnear : ∀ q ∈ h.take 16, sqDist q p ≤ 98 ^ 2) : sqDist h.pos p < 10000 := by
  have hx : (h.xs.take 16).sum = ∑ j, (ring 16 h j).1 := by
    rw [← sum_ring (by decide)]
    exact Finset.sum_congr rfl fun j _ => ring_map (f := Prod.fst) rfl h j
  have hy : (h.ys.take 16).sum = ∑ j, (ring 16 h j).2 := by
    rw [← sum_ring (by decide)]
    exact Finset.sum_congr rfl fun j _ => ring_map (f := Prod.snd) rfl h j
  have hcells : ∑ j : Fin 16, sqDist (ring 16 h j) p ≤ 16 * 98 ^ 2 := by
    have hle := Finset.sum_le_card_nsmul Finset.univ (fun j : Fin 16 => sqDist (ring 16 h j) p)
      (98 ^ 2) fun j _ => hnear _ (ring_mem hl j)
    simpa using hle
  have hsum : ((h.xs.take 16).sum - 16 * p.1) ^ 2 + ((h.ys.take 16).sum - 16 * p.2) ^ 2 ≤
      (16 * 98) ^ 2 := by
    have hcx := sq_sum_le_card_mul_sum_sq (s := Finset.univ)
      (f := fun j : Fin 16 => (ring 16 h j).1 - p.1)
    have hcy := sq_sum_le_card_mul_sum_sq (s := Finset.univ)
      (f := fun j : Fin 16 => (ring 16 h j).2 - p.2)
    simp only [Finset.sum_sub_distrib, Finset.sum_const, Finset.card_univ, Fintype.card_fin,
      nsmul_eq_mul, ← hx, ← hy] at hcx hcy
    simp only [sqDist, Finset.sum_add_distrib] at hcells
    push_cast at hcx hcy
    linarith
  have hu : h.pos.1 = (h.xs.take 16).sum / 16 := windowMean_eq 16 h.xs
  have hv : h.pos.2 = (h.ys.take 16).sum / 16 := windowMean_eq 16 h.ys
  rw [sqDist, hu, hv]
  exact sq_add_sq_lt_of_floor hsum (by omega) (by omega)

theorem staysNear_of_near {h : History} (hl : 16 ≤ h.length) {p : Int × Int}
    (hnear : ∀ q ∈ h.take 16, sqDist q p ≤ 98 ^ 2) : h.StaysNear p := by
  intro k hk
  refine sqDist_pos_lt (by rw [List.length_append]; omega) fun q hq => ?_
  rw [List.take_append, List.length_replicate, List.mem_append] at hq
  rcases hq with hq | hq
  · obtain rfl := List.eq_of_mem_replicate (List.mem_of_mem_take hq)
    simp [sqDist]
  · exact hnear q ((List.take_subset_take_left h (Nat.sub_le 16 k)) hq)

/-- The first 16 samples are the history. -/
theorem exec_offer_warm {ps : List (Int × Int)} (hl : ps.length ≤ 16) :
    exec offer [] ps = ps.reverse := by
  induction ps using List.reverseRecOn with
  | nil => rfl
  | append_singleton ps p ih =>
    rw [List.length_append, List.length_singleton] at hl
    have hp : Takes ps.reverse p := by
      left
      rw [List.length_reverse]
      omega
    rw [exec_concat, ih (by omega), offer, if_pos hp, List.reverse_concat]

end History

/-! ## Both versions -/

/-- The filter accepts every sample of the events `seen`. -/
def AllAccepted {σ ε : Type} (step : σ → ε → σ) (tracker : σ → Tracker)
    (sampleOf : ε → Option (Int × Int)) (s : σ) (seen : List ε) : Prop :=
  Along step (fun s e => ∀ p ∈ sampleOf e, (tracker s).Accepts ℝ p.1 p.2) s seen

namespace Tracking

variable {σ ε : Type} {step : σ → ε → σ} {tracker : σ → Tracker}
  {sampleOf : ε → Option (Int × Int)}

theorem length_history (m : Tracking step tracker sampleOf) {s : σ} (hs : tracker s = Tracker.init)
    {evs : List ε} (hc : (tracker (exec step s evs)).posComputed = 1) :
    16 ≤ (history sampleOf evs).length := by
  by_contra hlt
  rw [(m.tracks hs evs).posComputed, if_neg hlt] at hc
  cases hc

theorem allAccepted_iff (m : Tracking step tracker sampleOf) {s : σ} (hs : tracker s = Tracker.init)
    (evs : List ε) {seen : List ε} {p : Int × Int}
    (hseen : seen.filterMap sampleOf = List.replicate 16 p) :
    AllAccepted step tracker sampleOf (exec step s evs) seen ↔
      Along History.offer History.Takes (history sampleOf evs) (List.replicate 16 p) := by
  have hp : OnCamera p := by
    have hmem : p ∈ seen.filterMap sampleOf := by
      rw [hseen]
      exact List.mem_replicate.mpr ⟨by decide, rfl⟩
    obtain ⟨e, -, he⟩ := List.mem_filterMap.mp hmem
    exact m.onCamera e p he
  have hcam : Along Tracker.offer (fun _ p => OnCamera p) (tracker (exec step s evs))
      (List.replicate 16 p) :=
    along_events.mpr fun q hq => (List.eq_of_mem_replicate hq) ▸ hp
  have hstep : ∀ t h q, Tracks t h → OnCamera q → Tracks (Tracker.offer t q) (History.offer h q) :=
    fun t h q ht hq => ht.offer hq
  have haccept : ∀ t h q, Tracks t h → (t.Accepts ℝ q.1 q.2 ↔ History.Takes h q) :=
    fun t h q ht => ht.accepts_iff q
  have hfilter := along_filterMap (P := fun t p => t.Accepts ℝ p.1 p.2) m.step_eq
    (exec step s evs) seen
  rw [hseen] at hfilter
  exact hfilter.trans (along_simulation hstep haccept (m.tracks hs evs) hcam)

/-- Samples at one point are all accepted exactly when the mixed windows stay
near it, and then the tracker is there. -/
theorem follows (m : Tracking step tracker sampleOf) {s : σ} (hs : tracker s = Tracker.init)
    {evs seen : List ε} (hc : (tracker (exec step s evs)).posComputed = 1) {p : Int × Int}
    (hseen : seen.filterMap sampleOf = List.replicate 16 p) :
    let accepted := AllAccepted step tracker sampleOf (exec step s evs) seen
    let after := tracker (exec step s (evs ++ seen))
    (accepted ↔ (history sampleOf evs).StaysNear p) ∧
      (accepted → (after.xPos, after.yPos) = p) ∧
      ((∀ q ∈ (history sampleOf evs).take 16, History.sqDist q p ≤ 98 ^ 2) → accepted) := by
  intro accepted after
  have hl := m.length_history hs hc
  have hiff : accepted ↔ (history sampleOf evs).StaysNear p :=
    (m.allAccepted_iff hs evs hseen).trans (History.along_iff_staysNear hl p)
  refine ⟨hiff, fun ha => ?_, fun hnear => hiff.mpr (History.staysNear_of_near hl hnear)⟩
  have hpos : (after.xPos, after.yPos) = (history sampleOf (evs ++ seen)).pos :=
    (m.tracks hs (evs ++ seen)).pos
  have hh : history sampleOf (evs ++ seen) = List.replicate 16 p ++ history sampleOf evs := by
    rw [history, List.filterMap_append, exec_append, hseen]
    exact History.exec_replicate ((m.allAccepted_iff hs evs hseen).mp ha)
  rw [hpos, hh, History.pos_replicate]

end Tracking

variable {N : Nat} {G : Type} [Prng G]

/-- After any run of either version that has filled the window, 16 consecutive
samples at one point, with any ticks and UPD packets between them, are all
accepted exactly when the mixed windows stay near the point. Then the tracked
position is the point. A window within distance 98 of it is enough. -/
theorem tracker_follows_point (noiseSeed : Uint) (p : Int × Int) :
    (∀ evs seen : List Sequential.Event,
      let t := fun evs => (Sequential.run N ℝ G noiseSeed evs).tracker
      let h := history Sequential.sampleOf evs
      let accepted := AllAccepted Sequential.step (fun s => s.tracker) Sequential.sampleOf
        (Sequential.run N ℝ G noiseSeed evs) seen
      (t evs).posComputed = 1 → seen.filterMap Sequential.sampleOf = List.replicate 16 p →
        (accepted ↔ h.StaysNear p) ∧
          (accepted → (t (evs ++ seen)).xPos = p.1 ∧ (t (evs ++ seen)).yPos = p.2) ∧
          ((∀ q ∈ h.take 16, History.sqDist q p ≤ 98 ^ 2) → accepted)) ∧
      ∀ evs seen : List Parallel.MasterEvent,
        let t := fun evs => (Parallel.masterRun ℝ G evs).tracker
        let h := history Parallel.sampleOf evs
        let accepted := AllAccepted Parallel.masterStep (fun c => c.tracker) Parallel.sampleOf
          (Parallel.masterRun ℝ G evs) seen
        (t evs).posComputed = 1 → seen.filterMap Parallel.sampleOf = List.replicate 16 p →
          (accepted ↔ h.StaysNear p) ∧
            (accepted → (t (evs ++ seen)).xPos = p.1 ∧ (t (evs ++ seen)).yPos = p.2) ∧
            ((∀ q ∈ h.take 16, History.sqDist q p ≤ 98 ^ 2) → accepted) := by
  constructor
  · intro evs seen t h accepted hc hseen
    have hs := Sequential.State.cMain_tracker (N := N) (G := G) noiseSeed
    obtain ⟨hiff, hpos, hnear⟩ := Sequential.tracking.follows hs hc hseen
    exact ⟨hiff, fun ha => Prod.ext_iff.mp (hpos ha), hnear⟩
  · intro evs seen t h accepted hc hseen
    have hs := Parallel.masterStart_tracker (G := G)
    obtain ⟨hiff, hpos, hnear⟩ := Parallel.tracking.follows hs hc hseen
    exact ⟨hiff, fun ha => Prod.ext_iff.mp (hpos ha), hnear⟩

/-! ## Looks -/

namespace Sequential

/-- 16 samples with the same key. -/
def looks (key : Uint) : List Event := List.replicate 16 (.camera key 1)

theorem along_looks {P : State N ℝ G → Event → Prop} {key : Uint}
    (h : ∀ s, P s (.camera key 1)) (s : State N ℝ G) : Along step P s (looks key) := by
  have hevents : Along step (fun _ e => e = Event.camera key 1) s (looks key) :=
    along_events.mpr fun e he => List.eq_of_mem_replicate he
  refine hevents.imp ?_
  rintro s e rfl
  exact h s

/-- Samples leave the ball parameters and the state of the run alone. -/
theorem looks_frame (key : Uint) (s : State N ℝ G) :
    (exec step s (looks key)).timerOn = s.timerOn ∧ (exec step s (looks key)).state = s.state ∧
      (exec step s (looks key)).ball = s.ball ∧ (exec step s (looks key)).gen = s.gen := by
  have hs : ∀ (s' : State N ℝ G) (e : Event),
      (s'.timerOn = s.timerOn ∧ s'.state = s.state ∧ s'.ball = s.ball ∧ s'.gen = s.gen) →
      e = Event.camera key 1 → (step s' e).timerOn = s.timerOn ∧ (step s' e).state = s.state ∧
        (step s' e).ball = s.ball ∧ (step s' e).gen = s.gen := by
    rintro s' e h rfl
    simp only [step, State.cameraEvent]
    split <;> exact h
  exact exec_induction_along hs ⟨rfl, rfl, rfl, rfl⟩ (along_looks (fun _ => rfl) s)

variable {key : Uint} {p : Int × Int}

theorem samples_looks (hkey : sampleOfKey key 1 = some p) :
    (looks key).filterMap sampleOf = List.replicate 16 p := by
  simp only [looks, List.filterMap_replicate, sampleOf, hkey]

/-- The first look fills the window. -/
theorem history_looks (hkey : sampleOfKey key 1 = some p) :
    history sampleOf (looks key) = List.replicate 16 p := by
  rw [history, samples_looks hkey, History.exec_offer_warm (by simp), List.reverse_replicate]

theorem quiet_looks (noiseSeed : Uint) (hkey : sampleOfKey key 1 = some p) :
    Quiet p (run N ℝ G noiseSeed (looks key)) := by
  obtain ⟨htimer, hstate, -⟩ := looks_frame key (State.cMain N ℝ G noiseSeed)
  refine ⟨hstate.trans (State.cMain_state noiseSeed),
    htimer.trans (State.cMain_timerOn noiseSeed), ?_⟩
  have ht := tracking.tracks (State.cMain_tracker (N := N) (G := G) noiseSeed) (looks key)
  have hpos := History.pos_replicate [] p
  rw [List.append_nil, ← history_looks hkey, ← ht.pos] at hpos
  exact hpos

end Sequential

/-- Two samples at (127, 127), then 14 at (0, 0): a window about to forget what
keeps its mean up. -/
def fadingCorner : List Sequential.Event :=
  List.replicate 2 (.camera 0x7FFF 1) ++ List.replicate 14 (.camera 0x80 1)

/-- 16 samples at (85, 85). -/
def sightings : List Sequential.Event := List.replicate 16 (.camera 0x55D5 1)

theorem history_fadingCorner : history Sequential.sampleOf fadingCorner =
    List.replicate 14 (0, 0) ++ List.replicate 2 (127, 127) := by
  rw [history, History.exec_offer_warm (by decide)]
  rfl

/-- The tracker accepts the first sample at (85, 85), from 15 in both axes. The
sample that leaves the window then weighs more, the mean falls to 13, and the
other 15 samples are rejected. -/
theorem accepted_point_not_followed :
    let s := Sequential.run Sequential.nMFM ℝ MuslRand 0 fadingCorner
    s.tracker.posComputed = 1 ∧ s.tracker.Accepts ℝ 85 85 ∧
      sightings.filterMap Sequential.sampleOf = List.replicate 16 (85, 85) ∧
      ¬AllAccepted Sequential.step (fun s => s.tracker) Sequential.sampleOf s sightings := by
  intro s
  have hs := Sequential.State.cMain_tracker (N := Sequential.nMFM) (G := MuslRand) 0
  have ht := Sequential.tracking.tracks hs fadingCorner
  have hseen : sightings.filterMap Sequential.sampleOf = List.replicate 16 (85, 85) := rfl
  have hc : s.tracker.posComputed = 1 := by
    refine ht.posComputed.trans ?_
    rw [history_fadingCorner]
    rfl
  refine ⟨hc, ?_, hseen, ?_⟩
  · refine (ht.accepts_iff (85, 85)).mpr ?_
    rw [history_fadingCorner]
    right
    simp only [History.pos, windowMean_eq]
    decide
  · intro ha
    have hnear := (Sequential.tracking.follows hs hc hseen).1.mp ha 1 (by decide)
    rw [history_fadingCorner] at hnear
    simp only [History.pos, windowMean_eq] at hnear
    exact absurd hnear (by decide)

/-- From a window at (16, 16), 16 samples at (72, 60) take the tracker there. -/
theorem tracker_follows_point_away :
    let s := Sequential.run Sequential.nMFM ℝ MuslRand 0 (Sequential.looks 0x1090)
    let t := (Sequential.run Sequential.nMFM ℝ MuslRand 0
      (Sequential.looks 0x1090 ++ Sequential.looks 0x48BC)).tracker
    (s.tracker.xPos, s.tracker.yPos) = (16, 16) ∧
      AllAccepted Sequential.step (fun s => s.tracker) Sequential.sampleOf s
        (Sequential.looks 0x48BC) ∧ t.xPos = 72 ∧ t.yPos = 60 := by
  intro s t
  have hwindow : history Sequential.sampleOf (Sequential.looks 0x1090) =
      List.replicate 16 (16, 16) := Sequential.history_looks rfl
  have hs := Sequential.State.cMain_tracker (N := Sequential.nMFM) (G := MuslRand) 0
  have hc : s.tracker.posComputed = 1 := by
    refine (Sequential.tracking.tracks hs (Sequential.looks 0x1090)).posComputed.trans ?_
    rw [hwindow]
    rfl
  obtain ⟨-, hpos, hnear⟩ := (tracker_follows_point (N := Sequential.nMFM) (G := MuslRand) 0
    (72, 60)).1 (Sequential.looks 0x1090) (Sequential.looks 0x48BC) hc
      (Sequential.samples_looks rfl)
  have haccepted := hnear fun q hq => by
    rw [hwindow] at hq
    obtain rfl := List.eq_of_mem_replicate (List.mem_of_mem_take hq)
    decide
  exact ⟨(Sequential.quiet_looks 0 rfl).tracker, haccepted, hpos haccepted⟩

end BallController
