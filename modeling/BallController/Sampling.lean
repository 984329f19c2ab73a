import BallController.Parallel.Master
import BallController.Sequential.Spec

/-! What the ball tracker is for. Its purpose is stated on the history of the
accepted samples alone: the position is the mean of the last 16, and a sample
far from it is no ball. The running totals, the two rings, the cursor and the
flag of both versions are a function of this history, whatever ticks and UPD
packets come between the samples. -/

namespace BallController
open Lib Spin1Math

/-! ## The abstract tracker -/

/-- The accepted samples, newest first. -/
abbrev History := List (Int × Int)

namespace History

def xs (h : History) : List Int := h.map Prod.fst

def ys (h : History) : List Int := h.map Prod.snd

/-- The tracked position. -/
def pos (h : History) : Int × Int := (windowMean 16 h.xs, windowMean 16 h.ys)

/-- The squared distance that the outlier filter bounds. -/
def sqDist (p q : Int × Int) : Int := (p.1 - q.1) ^ 2 + (p.2 - q.2) ^ 2

/-- The first 16 samples are taken whatever they are. -/
def Takes (h : History) (p : Int × Int) : Prop := h.length < 16 ∨ sqDist h.pos p < 10000

instance (h : History) (p : Int × Int) : Decidable (h.Takes p) :=
  inferInstanceAs (Decidable (_ ∨ _))

def offer (h : History) (p : Int × Int) : History := if h.Takes p then p :: h else h

end History

/-- A camera coordinate pair: 7 bits for each axis. -/
def OnCamera (p : Int × Int) : Prop := (0 ≤ p.1 ∧ p.1 ≤ 127) ∧ 0 ≤ p.2 ∧ p.2 ≤ 127

/-- The tracker holds the window of the history `h`. -/
structure Tracks (t : Tracker) (h : History) : Prop where
  onCamera : ∀ p ∈ h, OnCamera p
  xBuffer : t.xBuffer = ring 16 h.xs
  yBuffer : t.yBuffer = ring 16 h.ys
  totalSumX : t.totalSumX = ∑ i, t.xBuffer i
  totalSumY : t.totalSumY = ∑ i, t.yBuffer i
  currIndex : t.currIndex = h.length % 16
  posComputed : t.posComputed = if 16 ≤ h.length then 1 else 0
  pos : (t.xPos, t.yPos) = h.pos
  pos_onCamera : OnCamera (t.xPos, t.yPos)

theorem norm_lt_iff (x y : Int) : (Spin1Math.norm x y : ℝ) < 100 ↔ x ^ 2 + y ^ 2 < 10000 := by
  have hsq : (0 : ℝ) ≤ ((x * x + y * y : Int) : ℝ) := by
    exact_mod_cast add_nonneg (mul_self_nonneg x) (mul_self_nonneg y)
  have hbound : (100 : ℝ) ^ 2 = ((10000 : Int) : ℝ) := by norm_num
  rw [Spin1Math.norm, libm_sqrt, Real.sqrt_lt hsq (by norm_num), hbound, Int.cast_lt, ← pow_two,
    ← pow_two]

/-- `compute_pos` on a sample. -/
noncomputable def Tracker.offer (t : Tracker) (p : Int × Int) : Tracker := t.computePos ℝ p.1 p.2

namespace Tracks

theorem init : Tracks Tracker.init [] where
  onCamera p hp := by cases hp
  xBuffer := rfl
  yBuffer := rfl
  totalSumX := by simp [Tracker.init]
  totalSumY := by simp [Tracker.init]
  currIndex := rfl
  posComputed := rfl
  pos := by
    simp only [History.pos, windowMean_eq]
    rfl
  pos_onCamera := by
    simp [OnCamera, Tracker.init]

/-- The filter of the code is that of the specification. -/
theorem accepts_iff {t : Tracker} {h : History} (ht : Tracks t h) (p : Int × Int) :
    t.Accepts ℝ p.1 p.2 ↔ h.Takes p := by
  have hflag : t.posComputed = 0 ↔ h.length < 16 := by
    rw [ht.posComputed]
    split <;> omega
  rw [Tracker.Accepts, norm_lt_iff, hflag, History.Takes, ← ht.pos, History.sqDist]

/-- One axis of `compute_pos`: the cells and the running total follow the window. -/
private theorem axis_push {l : List Int} {buffer : CArray 16 Int} {total : Int} {i : Nat}
    (hb : buffer = ring 16 l) (hi : i = l.length % 16) (ht : total = ∑ j, buffer j) (v : Int) :
    buffer.write i v = ring 16 (v :: l) ∧
      total - buffer.read i + v = ∑ j, ring 16 (v :: l) j := by
  subst hb hi ht
  constructor
  · exact ring_cons (by decide) l v
  · rw [sum_ring (by decide), sum_ring (by decide), sum_take_cons (by decide), ring_read (by decide)]

private theorem mean_push {l : List Int} {total : Int} (ht : total = ∑ i, ring 16 l i) :
    total >>> (4 : Nat) = windowMean 16 l := by
  rw [Int.shiftRight_eq_div_pow, ht, sum_ring (by decide), windowMean_eq]

theorem push {t : Tracker} {h : History} (ht : Tracks t h) {p : Int × Int} (hp : OnCamera p) :
    Tracks (t.push p.1 p.2) (p :: h) := by
  have hcam : ∀ q ∈ p :: h, OnCamera q := List.forall_mem_cons.mpr ⟨hp, ht.onCamera⟩
  have hlx : t.currIndex = h.xs.length % 16 := by rw [History.xs, List.length_map, ht.currIndex]
  have hly : t.currIndex = h.ys.length % 16 := by rw [History.ys, List.length_map, ht.currIndex]
  have hx : (t.push p.1 p.2).xBuffer = ring 16 (History.xs (p :: h)) ∧
      (t.push p.1 p.2).totalSumX = ∑ i, ring 16 (History.xs (p :: h)) i :=
    axis_push ht.xBuffer hlx ht.totalSumX p.1
  have hy : (t.push p.1 p.2).yBuffer = ring 16 (History.ys (p :: h)) ∧
      (t.push p.1 p.2).totalSumY = ∑ i, ring 16 (History.ys (p :: h)) i :=
    axis_push ht.yBuffer hly ht.totalSumY p.2
  have hpos : ((t.push p.1 p.2).xPos, (t.push p.1 p.2).yPos) = History.pos (p :: h) :=
    Prod.ext (mean_push hx.2) (mean_push hy.2)
  refine ⟨hcam, hx.1, hy.1, by rw [hx.2, hx.1], by rw [hy.2, hy.1], ?_, ?_, hpos, ?_⟩
  · show (t.currIndex + 1) % 16 = _
    rw [ht.currIndex, List.length_cons]
    omega
  · show (if t.posComputed = 0 ∧ t.currIndex = 15 then 1 else t.posComputed) = _
    rw [ht.posComputed, ht.currIndex, List.length_cons]
    -- the flag rises with the write of cell 15 and never falls
    split_ifs <;> omega
  · rw [hpos]
    refine ⟨windowMean_mem (by decide) ?_ (by decide), windowMean_mem (by decide) ?_ (by decide)⟩
    · intro v hv
      obtain ⟨q, hq, rfl⟩ := List.mem_map.mp hv
      exact (hcam q hq).1
    · intro v hv
      obtain ⟨q, hq, rfl⟩ := List.mem_map.mp hv
      exact (hcam q hq).2

theorem offer {t : Tracker} {h : History} (ht : Tracks t h) {p : Int × Int} (hp : OnCamera p) :
    Tracks (t.offer p) (h.offer p) := by
  unfold Tracker.offer Tracker.computePos History.offer
  by_cases hc : h.Takes p
  · rw [if_pos ((ht.accepts_iff p).mpr hc), if_pos hc]
    exact ht.push hp
  · rw [if_neg (mt (ht.accepts_iff p).mp hc), if_neg hc]
    exact ht

end Tracks

/-! ## Machines with a tracker -/

/-- What an event of time `now` with the key `key` offers to `compute_pos`: a
sample, if its polarity bit is 1 and the simulation has begun. -/
def sampleOfKey (key : Uint) (now : Nat) : Option (Int × Int) :=
  if polOfKey key = 1 ∧ now ≠ 0 then some (xOfKey key, yOfKey key) else none

/-- The events of a machine reach its tracker through `compute_pos` alone. -/
structure Tracking {σ ε : Type} (step : σ → ε → σ) (tracker : σ → Tracker)
    (sampleOf : ε → Option (Int × Int)) : Prop where
  step_eq : ∀ s e, tracker (step s e) =
    (sampleOf e).elim (tracker s) (tracker s).offer
  onCamera : ∀ e, ∀ p ∈ sampleOf e, OnCamera p

/-- The accepted samples of a run. -/
def history {ε : Type} (sampleOf : ε → Option (Int × Int)) (evs : List ε) : History :=
  exec History.offer [] (evs.filterMap sampleOf)

/-- An event brings the accepted sample `p`, or the tracker and the history stay
as they are. -/
structure Sampled (accepted : Prop) (p : Int × Int) (t t' : Tracker) (h h' : History) : Prop where
  pushed : accepted → t' = t.push p.1 p.2 ∧ h' = p :: h
  unchanged : ¬accepted → t' = t ∧ h' = h

theorem onCamera_of_key {key : Uint} {now : Nat} {p : Int × Int} (h : p ∈ sampleOfKey key now) :
    OnCamera p := by
  unfold sampleOfKey at h
  split at h
  · obtain rfl := Option.mem_some.mp h
    exact ⟨xOfKey_mem key, yOfKey_mem key⟩
  · cases h

namespace Tracking

variable {σ ε : Type} {step : σ → ε → σ} {tracker : σ → Tracker}
  {sampleOf : ε → Option (Int × Int)}

theorem exec_eq (m : Tracking step tracker sampleOf) (s : σ) (evs : List ε) :
    tracker (exec step s evs) =
      exec Tracker.offer (tracker s) (evs.filterMap sampleOf) := exec_filterMap m.step_eq s evs

/-- The tracker of a run holds the window of the history of the run. -/
theorem tracks (m : Tracking step tracker sampleOf) {s : σ} (hs : tracker s = Tracker.init)
    (evs : List ε) : Tracks (tracker (exec step s evs)) (history sampleOf evs) := by
  have hcam : ∀ p ∈ evs.filterMap sampleOf, OnCamera p := by
    intro p hp
    obtain ⟨e, -, he⟩ := List.mem_filterMap.mp hp
    exact m.onCamera e p he
  rw [m.exec_eq, hs, history]
  generalize evs.filterMap sampleOf = ps at hcam
  have hstep : ∀ t h p, Tracks t h → OnCamera p → Tracks (Tracker.offer t p) (History.offer h p) :=
    fun t h p ht hp => ht.offer hp
  have halong : Along Tracker.offer (fun _ p => OnCamera p) Tracker.init ps :=
    along_events.mpr hcam
  exact exec_simulation hstep Tracks.init halong

theorem history_concat (sampleOf : ε → Option (Int × Int)) (evs : List ε) (e : ε) :
    history sampleOf (evs ++ [e]) =
      (sampleOf e).elim (history sampleOf evs) (history sampleOf evs).offer := by
  unfold history
  rw [List.filterMap_append, exec_append]
  cases h : sampleOf e with
  | none => rw [List.filterMap_cons_none h, List.filterMap_nil, exec_nil, Option.elim_none]
  | some p =>
    rw [List.filterMap_cons_some h, List.filterMap_nil, exec_cons, exec_nil, Option.elim_some]

/-- An event without a sample leaves the tracker alone. -/
theorem idle (m : Tracking step tracker sampleOf) (s : σ) {e : ε} (he : sampleOf e = none)
    (evs : List ε) : tracker (step s e) = tracker s ∧
      history sampleOf (evs ++ [e]) = history sampleOf evs := by
  rw [m.step_eq, history_concat, he]
  exact ⟨rfl, rfl⟩

/-- The event `e` carries the key `key` at the time `now`. -/
theorem sampled (m : Tracking step tracker sampleOf) {s : σ} (hs : tracker s = Tracker.init)
    (evs : List ε) {e : ε} {key : Uint} {now : Nat} (he : sampleOf e = sampleOfKey key now) :
    Sampled (polOfKey key = 1 ∧ now ≠ 0 ∧ (history sampleOf evs).Takes (xOfKey key, yOfKey key))
      (xOfKey key, yOfKey key) (tracker (exec step s evs)) (tracker (exec step s (evs ++ [e])))
      (history sampleOf evs) (history sampleOf (evs ++ [e])) := by
  have ht := m.tracks hs evs
  rw [exec_concat, m.step_eq, history_concat, he, sampleOfKey]
  by_cases hk : polOfKey key = 1 ∧ now ≠ 0
  · rw [if_pos hk, Option.elim_some, Option.elim_some, Tracker.offer, Tracker.computePos,
      History.offer]
    by_cases hc : (history sampleOf evs).Takes (xOfKey key, yOfKey key)
    · rw [if_pos ((ht.accepts_iff _).mpr hc), if_pos hc]
      exact ⟨fun _ => ⟨rfl, rfl⟩, fun hn => absurd ⟨hk.1, hk.2, hc⟩ hn⟩
    · rw [if_neg (mt (ht.accepts_iff _).mp hc), if_neg hc]
      exact ⟨fun hn => absurd hn.2.2 hc, fun _ => ⟨rfl, rfl⟩⟩
  · rw [if_neg hk, Option.elim_none, Option.elim_none]
    exact ⟨fun hn => absurd ⟨hn.1, hn.2.1⟩ hk, fun _ => ⟨rfl, rfl⟩⟩

end Tracking

/-! ## Both versions -/

variable {N : Nat} {G : Type} [Prng G]

/-- Only camera events offer samples, ... -/
def Sequential.sampleOf : Sequential.Event → Option (Int × Int)
  | .camera key now => sampleOfKey key now
  | .tick _ => none

/-- ... in the parallel version those packets that are no UPD message. -/
def Parallel.sampleOf : Parallel.MasterEvent → Option (Int × Int)
  | .packet key _ now => if key &&& 0xC0000000#32 = Parallel.updMsg then none else sampleOfKey key now
  | .tick _ => none

theorem Sequential.tracking :
    Tracking (Sequential.step (N := N) (α := ℝ) (G := G)) (fun s => s.tracker) sampleOf where
  step_eq s e := by
    cases e with
    | camera key now =>
      simp only [step, State.cameraEvent, sampleOf, sampleOfKey]
      split <;> rfl
    | tick t =>
      simp only [step, sampleOf, Option.elim_none]
      split
      · rw [State.update_frame (fun s => s.tracker) (fun _ => rfl)]
        split
        · exact State.learn_tracker t s
        · rfl
      · rfl
  onCamera e p hp := by
    cases e with
    | camera key now => exact onCamera_of_key hp
    | tick t => cases hp

theorem Parallel.tracking :
    Tracking (Parallel.masterStep (α := ℝ) (G := G)) (fun c => c.tracker) sampleOf where
  step_eq c e := by
    cases e with
    | packet key payload now =>
      simp only [masterStep, Core.eventMaster, sampleOf, sampleOfKey]
      split
      · rfl
      · split <;> rfl
    | tick t =>
      simp only [masterStep, sampleOf, Option.elim_none]
      split
      · rw [Core.update_frame (fun c => c.tracker) (fun _ => rfl)]
        split <;> rfl
      · rfl
  onCamera e p hp := by
    cases e with
    | packet key payload now =>
      simp only [sampleOf] at hp
      split at hp
      · cases hp
      · exact onCamera_of_key hp
    | tick t => cases hp

/-- In both versions, after every run the tracker holds the window of the samples
accepted so far, and the next event changes it only by a sample that the
specification accepts. -/
theorem tracker_is_sliding_mean (noiseSeed : Uint) :
    (∀ evs : List Sequential.Event,
      let t := fun evs => (Sequential.run N ℝ G noiseSeed evs).tracker
      let h := history Sequential.sampleOf
      Tracks (t evs) (h evs) ∧
        (∀ key now, Sampled
          (polOfKey key = 1 ∧ now ≠ 0 ∧ (h evs).Takes (xOfKey key, yOfKey key))
          (xOfKey key, yOfKey key) (t evs) (t (evs ++ [.camera key now]))
          (h evs) (h (evs ++ [.camera key now]))) ∧
        ∀ simTime, t (evs ++ [.tick simTime]) = t evs ∧ h (evs ++ [.tick simTime]) = h evs) ∧
      ∀ evs : List Parallel.MasterEvent,
        let t := fun evs => (Parallel.masterRun ℝ G evs).tracker
        let h := history Parallel.sampleOf
        Tracks (t evs) (h evs) ∧
          (∀ key payload now, key &&& 0xC0000000#32 ≠ Parallel.updMsg → Sampled
            (polOfKey key = 1 ∧ now ≠ 0 ∧ (h evs).Takes (xOfKey key, yOfKey key))
            (xOfKey key, yOfKey key) (t evs) (t (evs ++ [.packet key payload now]))
            (h evs) (h (evs ++ [.packet key payload now]))) ∧
          (∀ key payload now, key &&& 0xC0000000#32 = Parallel.updMsg →
            t (evs ++ [.packet key payload now]) = t evs ∧
              h (evs ++ [.packet key payload now]) = h evs) ∧
          ∀ simTime, t (evs ++ [.tick simTime]) = t evs ∧ h (evs ++ [.tick simTime]) = h evs := by
  constructor
  · intro evs t h
    have hs := Sequential.State.cMain_tracker (N := N) (G := G) noiseSeed
    refine ⟨Sequential.tracking.tracks hs evs, fun key now => ?_, fun simTime => ?_⟩
    · exact Sequential.tracking.sampled hs evs rfl
    · have hidle := Sequential.tracking.idle (Sequential.run N ℝ G noiseSeed evs)
        (e := .tick simTime) rfl evs
      rw [Sequential.run, ← exec_concat Sequential.step] at hidle
      exact hidle
  · intro evs t h
    have hs := Parallel.masterStart_tracker (G := G)
    have hidle : ∀ e, Parallel.sampleOf e = none → t (evs ++ [e]) = t evs ∧
        h (evs ++ [e]) = h evs := by
      intro e he
      have hidle := Parallel.tracking.idle (Parallel.masterRun ℝ G evs) he evs
      rw [Parallel.masterRun, ← exec_concat Parallel.masterStep] at hidle
      exact hidle
    refine ⟨Parallel.tracking.tracks hs evs, fun key payload now hk => ?_,
      fun key payload now hk => hidle _ ?_, fun simTime => hidle _ rfl⟩
    · exact Parallel.tracking.sampled hs evs (by rw [Parallel.sampleOf, if_neg hk])
    · rw [Parallel.sampleOf, if_pos hk]

end BallController
