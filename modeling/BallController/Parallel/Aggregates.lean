import BallController.Parallel.System

/-! The four aggregates of the master: in a run without packets of the last four
slaves and without values of `v_y` they are the means of what the slaves sent.
The two conditions are needed: the array of `v_y` is never written, and the last
four slaves report under numbers for which there is no cell. -/

namespace BallController.Parallel
open Lib Spin1Math

variable {G : Type} [Prng G]

namespace System

/-- The packet that the event delivers to the master, if any, comes from a slave
with a cell of its own and carries no `v_y`. -/
def Clean (y : System ℝ G) : SystemEvent → Prop
  | .toMaster s i _ => ∀ u, (y.upds s)[i]? = some u →
      ¬(s.1.1 = 257 ∧ 12 ≤ s.1.2.toNat) ∧ |u.2.wVY * u.2.fY| < 0.001
  | _ => True

/-- Nothing has been received that the master cannot add up. -/
structure Lossless (y : System ℝ G) : Prop where
  ok : y.Ok
  outside : ∀ s : SlaveId, nMFM ≤ s.slot → y.last s = 0
  vY : ∀ s, (y.last s).vY = 0

omit [Prng G] in
theorem report_vY_eq_zero {c : Core ℝ G} (h : |c.wVY * c.fY| < 0.001) : c.report.vY = 0 := by
  rw [show (0.001 : ℝ) = 1 / 1000 by norm_num] at h
  obtain ⟨h1, h2⟩ := abs_lt.mp h
  have hr : c.updVY = c.wVY * c.fY := by
    unfold Core.updVY Core.phiMFMY
    exact range_of_mem (by norm_num; linarith) (by norm_num; linarith)
  simp only [Core.report, hr]
  exact quantize_eq_zero (by norm_num) h

theorem Lossless.step {y : System ℝ G} (h : y.Lossless) {e : SystemEvent} (he : y.Clean e) :
    (y.step e).Lossless := by
  suffices hr : (∀ s : SlaveId, nMFM ≤ s.slot → (y.step e).last s = 0) ∧
      ∀ s, ((y.step e).last s).vY = 0 from ⟨h.ok.step e, hr.1, hr.2⟩
  cases e with
  | camera key payload now hkey => exact ⟨h.outside, h.vY⟩
  | tick t => exact ⟨h.outside, h.vY⟩
  | toSlave s i =>
    simp only [System.step]
    cases y.master.sent[i]? <;> exact ⟨h.outside, h.vY⟩
  | toMaster s i now =>
    simp only [System.step]
    cases hu : (y.upds s)[i]? with
    | none => exact ⟨h.outside, h.vY⟩
    | some u =>
      obtain ⟨hid, hvY⟩ := he u hu
      have hs : s.slot < nMFM := (slot_lt_nMFM_iff _ s.2).mpr hid
      refine ⟨fun s' hs' => ?_, fun s' => ?_⟩
      · have hne : s' ≠ s := by
          rintro rfl
          omega
        simpa [System.masterGets, hne] using h.outside s' hs'
      · by_cases hne : s' = s
        · simpa [System.masterGets, hne] using report_vY_eq_zero hvY
        · simpa [System.masterGets, hne] using h.vY s'

theorem start_lossless : (start ℝ G).Lossless := ⟨start_ok, fun _ _ => rfl, fun _ => rfl⟩

/-- The four aggregates of the master, as a tick uses them, are the means of
what it received last from each of the 59 slaves. -/
structure Aggregates (y : System ℝ G) : Prop where
  used : ∀ t, (y.master.beforeMove t).oldVX = invDeltaTime * y.master.vX ∧
    (y.master.beforeMove t).oldVY = invDeltaTime * y.master.vY
  vX : y.master.vX = Axis.mean fun s => (y.last s).vX
  vY : y.master.vY = Axis.mean fun s => (y.last s).vY
  theta : ∀ t, (y.master.beforeMove t).drawNoise.actorMeans.1 = Axis.mean fun s => (y.last s).theta
  psi : ∀ t, (y.master.beforeMove t).drawNoise.actorMeans.2 = Axis.mean fun s => (y.last s).psi

theorem mean_eq {a : CArray nMFM ℝ} {last : SlaveId → ℝ} (h : Slotted SlaveId.slot a last)
    (hz : ∀ s : SlaveId, nMFM ≤ s.slot → last s = 0) : Axis.mean a = Axis.mean last := by
  rw [Axis.mean, Axis.mean, h.sum_eq SlaveId.slot_injective hz, Fintype.card_fin, card_slaveId]
  rfl

theorem Lossless.aggregates {y : System ℝ G} (h : y.Lossless) : y.Aggregates where
  used _ := ⟨rfl, rfl⟩
  vX := by
    rw [Core.vX_eq]
    exact mean_eq h.ok.vX fun s hs => congrArg Report.vX (h.outside s hs)
  vY := by simp [Core.vY_eq, h.vY, Axis.mean]
  theta t := by
    rw [Core.actorMeans_eq]
    exact mean_eq h.ok.theta fun s hs => congrArg Report.theta (h.outside s hs)
  psi t := by
    rw [Core.actorMeans_eq]
    exact mean_eq h.ok.psi fun s hs => congrArg Report.psi (h.outside s hs)

/-! ## The first round

The master's first tick, with no camera sample yet, and the answer of a slave. -/

noncomputable def firstError (G : Type) [Prng G] : Packet :=
  ((masterStart ℝ G).beforeSend 1).sendErrPacket (toUint 0) (toUint 0)

noncomputable def firstAnswer (G : Type) [Prng G] (s : SlaveId) : Core ℝ G :=
  (Core.cMain ℝ G s.1.1 s.1.2).eventNode (firstError G).key (firstError G).payload

theorem firstError_sent : (masterStep (masterStart ℝ G) (.tick 1)).sent[3]? = some (firstError G) := by
  rw [sent_step, masterStart_sent]
  rfl

/-- Copies of the first message reach the slave `s`. -/
theorem arrivals_copies (s : SlaveId) (n : Nat) :
    arrivals G s (.tick 1 :: List.replicate n (.toSlave s 3)) =
      List.replicate n (firstError G) := by
  have hcopies : ∀ y : System ℝ G, y.master.sent[3]? = some (firstError G) →
      emitted step (arrives s) y (List.replicate n (.toSlave s 3)) =
        List.replicate n (firstError G) := by
    induction n with
    | zero => exact fun y hy => rfl
    | succ n ih =>
      intro y hy
      have harrives : arrives s y (.toSlave s 3) = [firstError G] := by
        simp only [arrives, if_pos, hy, Option.toList_some]
      have hmaster : (y.step (.toSlave s 3)).master = y.master := master_step y (.toSlave s 3)
      rw [List.replicate_succ, emitted, harrives, ih _ (by rw [hmaster, hy])]
      rfl
  exact hcopies _ firstError_sent

theorem firstError_errY_nonneg : 0 ≤ (Core.errY (firstError G).key (firstError G).payload : ℝ) := by
  have hspeed : (masterStart ℝ G).ball.spYTerm = 0 := by
    have h : (masterStart ℝ G).ball.spYTerm = 0.0 := rfl
    norm_num [h]
  have hold : (masterStart ℝ G).oldVY = 0 := by
    have h : (masterStart ℝ G).oldVY = 0.0 := rfl
    norm_num [h]
  have hpos := (BallParams.abs_normalizedPos_le 0 0).2
  have hr : 0 ≤ (BallParams.normalizeBallParams (toUint 0).toInt (toUint 0).toInt 1
      (masterStart ℝ G).ball).rY := by
    apply range_nonneg
    simp only [BallParams.rPosY, BallParams.normalizeBallParams_pos, fAbs_eq_abs,
      (BallParams.normalizeBallParams_speed _ _ _ _).2.1]
    have hs : (BallParams.computeSpeed 1 { (masterStart ℝ G).ball with
        pos := BallParams.normalizedPos (toUint 0).toInt (toUint 0).toInt }).spYTerm = 0 := hspeed
    rw [hs]
    norm_num
    exact hpos
  have he : 0 ≤ ((masterStart ℝ G).beforeSend 1).errorY := by
    apply range_nonneg
    rw [Core.vY_eq]
    simp [hold]
    exact hr
  have hq := Core.sendErr_errY (errFits_beforeSend (c := masterStart ℝ G) masterStart_ok 1)
  rw [show (Core.errY (firstError G).key (firstError G).payload : ℝ) = _ from hq]
  exact quantize_nonneg (by norm_num) he

theorem firstError_isNewError (s : SlaveId) :
    Core.IsNewError (firstError G).key (Core.cMain ℝ G s.1.1 s.1.2) := by
  have hdec := errDecodes_sendErr (c := masterStart ℝ G) masterStart_ok 1
  have hstart : (masterStart ℝ G).counter = 0 := rfl
  refine (hdec.isNewError _).mpr ?_
  rw [(Core.cMain_slave (slaves_not_master _ s.2)).2.2.2.1, Core.sendErr, Core.nextCounter,
    Core.beforeSend_counter, hstart]
  exact (by decide : ((0 + 1) % 50 : Uint) ≠ 0)

/-- In the first round a slave fires half of its activation at the corner
position, and its weight moves by the error it was told. -/
theorem firstAnswer_spec (s : SlaveId) :
    (firstAnswer G s).fY =
        activation |(BallParams.normalizedPos 0 0 : Vector2d ℝ).y - (centerOf s.1.1 s.1.2).y| / 2 ∧
      (firstAnswer G s).wVY = (Core.cMain ℝ G s.1.1 s.1.2).wVY +
        Core.errY (firstError G).key (firstError G).payload / 2 * (firstAnswer G s).fY := by
  obtain ⟨hf, he, hc, _, _, _⟩ := Core.cMain_slave (G := G) (slaves_not_master _ s.2)
  have hpos : Core.errPos (firstError G).key = (0, 0) :=
    Core.sendErr_pos (errFits_beforeSend (c := masterStart ℝ G) masterStart_ok 1)
  obtain ⟨h1, h2⟩ := Core.eventNode_fY_wVY (firstError_isNewError s) (firstError G).payload
    (by rw [hpos])
  refine ⟨?_, ?_⟩
  · rw [firstAnswer, h1, hf, hc, tauM_eq]
    ring
  · rw [firstAnswer, h2, he, learningRateV_eq]
    ring

theorem firstRound_upds (s : SlaveId) :
    (exec step (start ℝ G) [.tick 1, .toSlave s 3]).upds s =
      [((firstAnswer G s).sendUpdPacket, firstAnswer G s)] := by
  have hsent : (Core.cMain ℝ G s.1.1 s.1.2).sent = [] :=
    (Core.cMain_slave (slaves_not_master _ s.2)).2.2.2.2.1
  have hnew : (firstAnswer G s).sent = [(firstAnswer G s).sendUpdPacket] := by
    rw [firstAnswer, eventNode_sent (firstError_isNewError s), hsent]
    rfl
  have hstep : step (step (start ℝ G) (.tick 1)) (.toSlave s 3) =
      (step (start ℝ G) (.tick 1)).slaveGets s (firstError G) := by
    simp only [step, start, firstError_sent, Option.elim_some]
  rw [exec_cons, exec_cons, exec_nil, hstep]
  have hslave : (step (start ℝ G) (.tick 1)).slave s = Core.cMain ℝ G s.1.1 s.1.2 := rfl
  have hgets : ((step (start ℝ G) (.tick 1)).slaveGets s (firstError G)).upds s =
      [] ++ ((firstAnswer G s).sent.drop (Core.cMain ℝ G s.1.1 s.1.2).sent.length).map
        fun q => (q, firstAnswer G s) := by
    simp only [slaveGets, Function.update_self, hslave]
    rfl
  rw [hgets, hnew, hsent]
  rfl

theorem initial_wVY_257_1 : 0.08 < (Core.cMain ℝ MuslRand 257 1).wVY := by
  have hg : coreNb (chipYOf 257) (chipXOf 257) 1 + 1 = 49 := by decide
  have hr : (Prng.rand (Prng.rand (Prng.srand 49 : MuslRand)).2).1 = 1964984646 := by decide
  rw [(Core.cMain_slave (by decide)).2.2.2.2.2, hg]
  simp only [initWeight, uniform, hr, randMax]
  norm_num

theorem firstAnswer_vY_pos (h : ((257, 1) : Uint × Uint) ∈ slaves) :
    0 < (firstAnswer MuslRand ⟨(257, 1), h⟩).report.vY := by
  obtain ⟨hf, hw⟩ := firstAnswer_spec (G := MuslRand) ⟨(257, 1), h⟩
  obtain ⟨hy1, hy2⟩ := BallParams.normalizedPos_zero_mem.2
  obtain ⟨hc1, hc2⟩ := centerOf_257_1_mem
  have hw0 := initial_wVY_257_1
  have he := firstError_errY_nonneg (G := MuslRand)
  have hd : |(BallParams.normalizedPos 0 0 : Vector2d ℝ).y - (centerOf 257 1 : Vector2d ℝ).y| ≤ 0.14 :=
    abs_le.mpr ⟨by linarith, by linarith⟩
  have ha := le_activation (abs_nonneg
    ((BallParams.normalizedPos 0 0 : Vector2d ℝ).y - (centerOf 257 1 : Vector2d ℝ).y))
  generalize firstAnswer MuslRand ⟨(257, 1), h⟩ = c at *
  dsimp only at hf hw
  have hF : 0.3 ≤ c.fY := by rw [hf]; linarith
  have hW : 0.08 ≤ c.wVY := by rw [hw]; nlinarith
  have hv : 0.02 ≤ c.updVY := by
    unfold Core.updVY Core.phiMFMY range
    split_ifs <;> nlinarith
  have hq := (abs_lt.mp (abs_quantize_sub_lt (k := 1000) (by norm_num) c.updVY)).1
  simp only [Core.report]
  linarith

theorem aggregates_exec {evs : List SystemEvent} (h : Along step Clean (start ℝ G) evs) :
    (exec step (start ℝ G) evs).Aggregates := by
  have hl : (exec step (start ℝ G) evs).Lossless :=
    exec_induction_along (P := Lossless) (fun _ _ hy he => hy.step he) start_lossless h
  exact hl.aggregates

/-- In every run that delivers to the master only packets of slaves with a cell
of their own, and only such whose `v_y` is below the resolution of the message,
the master sums what the slaves sent, in every state. The order in which it got
the last packets of the slaves makes no difference. -/
theorem aggregates_of_clean (evs : List SystemEvent) (h : Along step Clean (start ℝ G) evs) :
    (exec step (start ℝ G) evs).Aggregates ∧
      ∀ evs', Along step Clean (start ℝ G) evs' →
        (exec step (start ℝ G) evs').last = (exec step (start ℝ G) evs).last →
        (exec step (start ℝ G) evs').master.vX = (exec step (start ℝ G) evs).master.vX ∧
          (exec step (start ℝ G) evs').master.vY = (exec step (start ℝ G) evs).master.vY ∧
          ∀ t, ((exec step (start ℝ G) evs').master.beforeMove t).drawNoise.actorMeans =
            ((exec step (start ℝ G) evs).master.beforeMove t).drawNoise.actorMeans := by
  have ha := aggregates_exec h
  refine ⟨ha, fun evs' h' hlast => ?_⟩
  have ha' := aggregates_exec h'
  refine ⟨by rw [ha.vX, ha'.vX, hlast], by rw [ha.vY, ha'.vY, hlast], fun t => Prod.ext ?_ ?_⟩
  · rw [ha.theta, ha'.theta, hlast]
  · rw [ha.psi, ha'.psi, hlast]

/-- Core 2 of chip 0 is too far from the corner to contribute to `v_y`. -/
theorem aggregates_of_clean_firstRound :
    let s : SlaveId := ⟨(0, 2), by decide⟩
    (exec step (start ℝ MuslRand) [.tick 1, .toSlave s 3, .toMaster s 0 0]).Aggregates := by
  intro s
  have hclean : Along step Clean (start ℝ MuslRand) [.tick 1, .toSlave s 3, .toMaster s 0 0] := by
    refine ⟨trivial, trivial, fun u hu => ?_, trivial⟩
    have hupds := firstRound_upds (G := MuslRand) s
    rw [exec_cons, exec_cons, exec_nil] at hupds
    rw [hupds] at hu
    obtain rfl := Option.some_inj.mp hu
    have hc : (centerOf s.1.1 s.1.2 : Vector2d ℝ).y = 0 := by
      simp [s, centerOf, chipXOf, chipYOf]
    have hf : (firstAnswer MuslRand s).fY = 0 := by
      have hy := BallParams.normalizedPos_zero_mem.2.2
      rw [(firstAnswer_spec s).1, hc, sub_zero, abs_of_neg (by linarith),
        activation_eq_zero (by linarith), zero_div]
    refine ⟨by decide, ?_⟩
    rw [hf, mul_zero, abs_zero]
    norm_num
  exact (aggregates_of_clean _ hclean).1

/-- Core 1 of chip 257 is near the corner: its `v_y` is lost. -/
theorem aggregates_lose_vY :
    let s : SlaveId := ⟨(257, 1), by decide⟩
    ¬(exec step (start ℝ MuslRand) [.tick 1, .toSlave s 3, .toMaster s 0 0]).Aggregates := by
  intro s h
  have hupds := firstRound_upds (G := MuslRand) s
  have hlast : (exec step (start ℝ MuslRand) [.tick 1, .toSlave s 3, .toMaster s 0 0]).last =
      Function.update (fun _ => 0) s (firstAnswer MuslRand s).report := by
    rw [show [SystemEvent.tick 1, .toSlave s 3, .toMaster s 0 0] =
      [.tick 1, .toSlave s 3] ++ [.toMaster s 0 0] from rfl, exec_concat]
    simp only [step, hupds]
    rfl
  have hmean := h.vY
  rw [Core.vY_eq, hlast, Axis.mean, Finset.sum_eq_single s (fun s' _ hs => by simp [hs]; rfl)
    (fun hs => absurd (Finset.mem_univ s) hs), card_slaveId, Function.update_self] at hmean
  have hpos := firstAnswer_vY_pos s.2
  push_cast at hmean
  linarith

end System

end BallController.Parallel
