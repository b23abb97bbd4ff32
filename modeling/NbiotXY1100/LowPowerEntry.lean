import NbiotXY1100.LpmStandby

/-! # What a low-power entry leaves behind

Whatever the hardware reads, both functions put every register back but for the wake-up mask. That one
is lost when the DSP leaves its deep sleep between the two checks of `save_nv_in_deepsleep`, which
has no way back to the old mask, and when the DSP is reported as not loaded at the end of a
standby. -/
namespace NbiotXY1100.LowPowerEntry
open LpmDeepsleep LpmStandby

/-- The system runs, and the software sampling is at rest. -/
structure Running (cfg : Config) (s : Regs) : Prop where
  sysTick : s.sysTick = true
  wakeupMask : s.wakeupMask = 0x03
  xipMode : s.xipMode = true
  standbyEnterXip : s.standbyEnterXip = 0
  lpmState : s.lpmState = .active
  uart : cfg.closeAtUart = false → s.uartEnabled = true ∧ s.rxdPin = .csp2Rxd
  firstEnter : s.firstEnter = false

structure Restored (cfg : Config) (s t : Regs) : Prop where
  criticalNesting : t.criticalNesting = s.criticalNesting
  running : Running cfg t
  rxTimeout : cfg.closeAtUart = false → t.rxTimeout = s.rxTimeout

/-- A call of one of the two functions, with all it reads. -/
inductive Call where
  | deepsleep (offtime deepsleepTime : ℕ) (reads : DeepsleepReads)
  | standby (reads : StandbyReads)

variable {α : Type*} (nvWriteToFlash : α → α)

/-- The registers after a call, if it returns. -/
def process (cfg : Config) (fuel : ℕ) (app : α) : Call → Regs → Option Regs
  | .deepsleep offtime deepsleepTime r, s =>
    (lpmDeepsleepProcess nvWriteToFlash offtime deepsleepTime r (s, app)).map fun result => result.2.1
  | .standby r, s => lpmStandbyProcess cfg fuel r s

/-- The deep sleep is not given up between its two checks of the DSP, and the DSP is not reported as
not loaded at the end of a standby. -/
def MaskKept : Call → Prop
  | .deepsleep _ deepsleepTime r =>
    ¬ (r.allowed = true ∧ enters deepsleepTime r = true ∧ deepsleepOrNotLoaded r.dspSave1 = true ∧
      deepsleepOrNotLoaded r.dspSave2 = false)
  | .standby r => ¬ (entersStandby r = true ∧ r.dspExit = .notLoaded)

/-! ### The software sampling -/

section Sampling

variable {cfg : Config} (result : SampleResult) (s : Regs)

/-- What the sampling leaves alone. -/
structure SameBut (s t : Regs) : Prop where
  criticalNesting : t.criticalNesting = s.criticalNesting
  sysTick : t.sysTick = s.sysTick
  wakeupMask : t.wakeupMask = s.wakeupMask
  xipMode : t.xipMode = s.xipMode
  standbyEnterXip : t.standbyEnterXip = s.standbyEnterXip
  lpmState : t.lpmState = s.lpmState
  rxdPin : t.rxdPin = s.rxdPin
  rxTimeout : t.rxTimeout = s.rxTimeout

theorem softSampleInit_same (type : SampleType) : SameBut s (softSampleInit type result s) := by
  cases hfirst : s.firstEnter <;> cases type <;> cases result <;>
    simp only [softSampleInit, softSampleTimerHandler, hfirst, Bool.false_eq_true, if_true, if_false] <;>
    (try split) <;> exact ⟨rfl, rfl, rfl, rfl, rfl, rfl, rfl, rfl⟩

theorem softSampleFromStandby_same (type : SampleType) : SameBut s (softSampleFromStandby cfg type result s) := by
  cases type with
  | crystal =>
    rw [softSampleFromStandby]
    split
    · exact softSampleInit_same result s .crystal
    · exact ⟨rfl, rfl, rfl, rfl, rfl, rfl, rfl, rfl⟩
  | pll =>
    rw [softSampleFromStandby]
    split
    · simp only
      split
      · have h := softSampleInit_same result s .pll
        exact ⟨h.1, h.2, h.3, h.4, h.5, h.6, h.7, h.8⟩
      · exact ⟨rfl, rfl, rfl, rfl, rfl, rfl, rfl, rfl⟩
    · exact ⟨rfl, rfl, rfl, rfl, rfl, rfl, rfl, rfl⟩

/-- The UART is enabled, or the second sampling is still to come. -/
def Sampled (s : Regs) : Prop := s.uartEnabled = true ∨ s.failCrystal = .failAllIdle ∨ s.firstEnter = false

/-- The first sampling enables the UART unless it saw no data at all. -/
theorem sampled_crystal : Sampled (softSampleFromStandby cfg .crystal result s) := by
  rw [softSampleFromStandby]
  split
  · cases result with
    | success => exact .inl rfl
    | allIdle => exact .inr (.inl rfl)
    | withData => exact .inl rfl
  · exact .inl rfl

theorem softSampleInit_pll_enabled : (softSampleInit .pll result s).uartEnabled = true := by
  cases result with
  | success => rfl
  | allIdle => simp only [softSampleInit, softSampleTimerHandler, or_true, if_true]
  | withData => simp only [softSampleInit, softSampleTimerHandler, or_true, if_true]

/-- The second sampling enables it wherever the first one did not. -/
theorem enabled_pll (h : Sampled s) : (softSampleFromStandby cfg .pll result s).uartEnabled = true := by
  rw [softSampleFromStandby]
  split
  · simp only
    split
    · exact softSampleInit_pll_enabled result s
    · next hskip => exact h.resolve_right hskip
  · rfl

/-- After the second sampling it is at rest again. -/
theorem atRest_pll (h : cfg.lowBaud = false → s.firstEnter = false) :
    (softSampleFromStandby cfg .pll result s).firstEnter = false := by
  rw [softSampleFromStandby]
  split
  · rfl
  · next hbaud => exact h (by simpa using hbaud)

theorem firstEnter_crystal (hbaud : cfg.lowBaud = false) :
    (softSampleFromStandby cfg .crystal result s).firstEnter = s.firstEnter := by
  rw [softSampleFromStandby, hbaud, if_neg Bool.false_ne_true]

end Sampling

/-! ### The standby -/

section Standby

variable {cfg : Config} {r : StandbyReads} {s t : Regs} {timeout : UInt32}

/-- What a standby leaves behind, but for the SysTick and the nesting, which it keeps. -/
structure Left (cfg : Config) (r : StandbyReads) (timeout : UInt32) (s t : Regs) : Prop where
  criticalNesting : t.criticalNesting = s.criticalNesting
  sysTick : t.sysTick = s.sysTick
  wakeupMask : t.wakeupMask = wakeupMaskOf r.dspExit
  xipMode : t.xipMode = true
  standbyEnterXip : t.standbyEnterXip = 0
  lpmState : t.lpmState = .active
  uart : cfg.closeAtUart = false → t.uartEnabled = true ∧ t.rxdPin = .csp2Rxd ∧ t.rxTimeout = timeout
  firstEnter : t.firstEnter = false

theorem standbyExit_left (hxip : s.xipMode = true) (hflag : s.standbyEnterXip = 0) (hfirst : s.firstEnter = false)
    (huart : cfg.closeAtUart = false → s.uartEnabled = true ∧ s.rxdPin = .csp2Rxd) :
    Left cfg r timeout s (standbyExit cfg r timeout s) where
  criticalNesting := rfl
  sysTick := rfl
  wakeupMask := rfl
  xipMode := hxip
  standbyEnterXip := hflag
  lpmState := rfl
  uart := by
    intro hopen
    obtain ⟨henabled, hpin⟩ := huart hopen
    exact ⟨henabled, hpin, by simp [standbyExit, hopen]⟩
  firstEnter := hfirst

theorem Left.of_same {u : Regs} (h : Left cfg r timeout u t) (hnesting : u.criticalNesting = s.criticalNesting)
    (htick : u.sysTick = s.sysTick) : Left cfg r timeout s t :=
  { h with criticalNesting := h.criticalNesting.trans hnesting, sysTick := h.sysTick.trans htick }

theorem uartSamplePll_left (hxip : s.xipMode = true) (hflag : s.standbyEnterXip = 0)
    (hrest : cfg.closeAtUart = true ∨ cfg.lowBaud = false → s.firstEnter = false)
    (huart : cfg.closeAtUart = false → Sampled s ∧ s.rxdPin = .csp2Rxd) :
    Left cfg r timeout s (uartSamplePll cfg r timeout s) := by
  cases hclose : cfg.closeAtUart with
  | true =>
    rw [uartSamplePll, hclose, if_pos rfl]
    exact standbyExit_left hxip hflag (hrest (.inl hclose)) fun h => absurd (hclose.symm.trans h) (by decide)
  | false =>
    obtain ⟨hsampled, hpin⟩ := huart hclose
    have hsame := @softSampleFromStandby_same cfg r.samplePll s .pll
    have hleft : Left cfg r timeout (softSampleFromStandby cfg .pll r.samplePll s)
        (standbyExit cfg r timeout (softSampleFromStandby cfg .pll r.samplePll s)) :=
      standbyExit_left (hsame.xipMode.trans hxip) (hsame.standbyEnterXip.trans hflag)
        (atRest_pll r.samplePll s fun h => hrest (.inr h))
        fun _ => ⟨enabled_pll r.samplePll s hsampled, hsame.rxdPin.trans hpin⟩
    rw [uartSamplePll, hclose, if_neg Bool.false_ne_true]
    exact hleft.of_same hsame.criticalNesting hsame.sysTick

theorem standbyCalOn_left {xipflag : Bool} (hxip : xipflag = true ∨ s.xipMode = true) (hfirst : s.firstEnter = false) :
    Left cfg r timeout s (standbyCalOn cfg r timeout xipflag s) := by
  have hmode : ∀ u : Regs, u.xipMode = s.xipMode →
      (if xipflag then { u with xipMode := true } else u).xipMode = true := by
    intro u hu
    cases xipflag with
    | true => rfl
    | false => exact hu.trans (hxip.resolve_left Bool.false_ne_true)
  cases hclose : cfg.closeAtUart with
  | true =>
    simp only [standbyCalOn, hclose, if_true]
    refine Left.of_same (uartSamplePll_left (hmode s rfl) rfl (fun _ => ?_) fun h => ?_) ?_ ?_
    · cases xipflag <;> exact hfirst
    · exact absurd (hclose.symm.trans h) (by decide)
    · cases xipflag <;> rfl
    · cases xipflag <;> rfl
  | false =>
    have hsame := @softSampleFromStandby_same cfg r.sampleCrystal (atUartGpioRecovery s) .crystal
    have hsampled := @sampled_crystal cfg r.sampleCrystal (atUartGpioRecovery s)
    have hbaud := @firstEnter_crystal cfg r.sampleCrystal (atUartGpioRecovery s)
    simp only [standbyCalOn, hclose, Bool.false_eq_true, if_false]
    generalize softSampleFromStandby cfg .crystal r.sampleCrystal (atUartGpioRecovery s) = u at *
    refine Left.of_same (uartSamplePll_left (hmode u hsame.xipMode) rfl (fun h => ?_) fun _ => ?_) ?_ ?_
    · have hlow := h.resolve_left (by simp [hclose])
      cases xipflag <;> exact (hbaud hlow).trans hfirst
    · cases xipflag <;> exact ⟨hsampled, hsame.rxdPin⟩
    · cases xipflag <;> exact hsame.criticalNesting
    · cases xipflag <;> exact hsame.sysTick

theorem standbySleep_left (hxip : s.xipMode = true) (hfirst : s.firstEnter = false) :
    Left cfg r timeout s (standbySleep cfg r timeout s) := by
  have hout : Left cfg r timeout s (standbyCalOn cfg r timeout true
      { s with wakeupMask := wakeupMaskOf r.dspMask, standbyEnterXip := 0xA5, xipMode := false }) :=
    (standbyCalOn_left (.inl rfl) (by exact hfirst)).of_same rfl rfl
  simp only [standbySleep]
  split
  · split
    · exact hout
    · split
      · exact hout
      · exact hout
  · exact (standbyCalOn_left (s := { s with wakeupMask := wakeupMaskOf r.dspMask }) (.inr hxip) hfirst).of_same rfl rfl

theorem standbyMap_left {fuel : ℕ} (hxip : s.xipMode = true) (hflag : s.standbyEnterXip = 0)
    (hfirst : s.firstEnter = false) (huart : cfg.closeAtUart = false → s.uartEnabled = true ∧ s.rxdPin = .csp2Rxd)
    (h : standbyMap cfg fuel r timeout s = some t) : Left cfg r timeout s t := by
  have hexit : Left cfg r timeout s (standbyExit cfg r timeout s) := standbyExit_left hxip hflag hfirst huart
  have hdata : cfg.closeAtUart = false →
      Left cfg r timeout s (uartSamplePll cfg r timeout (atUartGpioRecovery (mapRxdToGpi s))) := fun _ =>
    (uartSamplePll_left (s := atUartGpioRecovery (mapRxdToGpi s)) hxip hflag (fun _ => hfirst)
      fun _ => ⟨.inr (.inr hfirst), rfl⟩).of_same rfl rfl
  rw [standbyMap] at h
  split at h
  · obtain rfl := Option.some.inj h
    exact hexit
  · split at h
    · obtain rfl := Option.some.inj h
      exact standbySleep_left hxip hfirst
    · next hopen =>
      replace hdata := hdata (Bool.eq_false_iff.mpr hopen)
      split at h
      · obtain rfl := Option.some.inj h
        exact hexit
      · obtain ⟨data, -, h⟩ := Option.bind_eq_some_iff.mp h
        split at h
        · obtain rfl := Option.some.inj h
          exact hdata
        · obtain ⟨data, -, rfl⟩ := Option.map_eq_some_iff.mp h
          cases data with
          | true => exact hdata
          | false => exact (standbySleep_left (s := mapRxdToGpi s) hxip hfirst).of_same rfl rfl

theorem lpmArmEntryStandby_left {fuel : ℕ} (hxip : s.xipMode = true) (hflag : s.standbyEnterXip = 0)
    (hfirst : s.firstEnter = false) (huart : cfg.closeAtUart = false → s.uartEnabled = true ∧ s.rxdPin = .csp2Rxd)
    (h : lpmArmEntryStandby cfg fuel r s = some t) : Left cfg r s.rxTimeout s t := by
  rw [lpmArmEntryStandby] at h
  simp only at h
  split at h
  · exact (standbyMap_left (by exact hxip) (by exact hflag) (by exact hfirst) (by exact huart) h).of_same rfl rfl
  · split at h
    · cases h
    · obtain ⟨data, -, h⟩ := Option.bind_eq_some_iff.mp h
      split at h
      · obtain rfl := Option.some.inj h
        exact (standbyExit_left (by exact hxip) (by exact hflag) (by exact hfirst) (by exact huart)).of_same rfl rfl
      · exact (standbyMap_left (by exact hxip) (by exact hflag) (by exact hfirst) (by exact huart) h).of_same rfl rfl

end Standby

/-! ### Both functions -/

theorem wakeupMaskOf_eq_three {dsp : DspState} : wakeupMaskOf dsp = 0x03 ↔ dsp ≠ .notLoaded := by
  cases dsp <;> decide

variable {nvWriteToFlash} {cfg : Config} {s t : Regs}

/-- A running system is restored by what changes the mask at most, exactly when it is the old one. -/
theorem restored_iff_mask {mask : UInt8} (hrun : Running cfg s) :
    Restored cfg s { s with wakeupMask := mask } ↔ mask = 0x03 :=
  ⟨fun h => h.running.wakeupMask, fun h => ⟨rfl, { hrun with wakeupMask := h }, fun _ => rfl⟩⟩

theorem deepsleep_restored_iff {offtime deepsleepTime : ℕ} {r : DeepsleepReads} {app app' : α} {exit : Exit}
    (hrun : Running cfg s)
    (h : lpmDeepsleepProcess nvWriteToFlash offtime deepsleepTime r (s, app) = some (exit, t, app')) :
    Restored cfg s t ↔ MaskKept (.deepsleep offtime deepsleepTime r) := by
  have hreturns := lpmDeepsleepProcess_returns nvWriteToFlash h
  -- the SysTick was on and the state active, so only the mask can differ
  have hset : ∀ mask, { s with sysTick := true, wakeupMask := mask } = { s with wakeupMask := mask } := fun mask => by
    rw [← hrun.sysTick]
  have hkept : Restored cfg s s := ⟨rfl, hrun, fun _ => rfl⟩
  generalize ht : (t, app') = u at hreturns
  cases hreturns with
  | refused hallowed =>
    obtain ⟨rfl, rfl⟩ := Prod.mk.inj ht
    exact iff_of_true hkept (by simp [MaskKept, hallowed])
  | passed hallowed henters =>
    obtain ⟨rfl, rfl⟩ := Prod.mk.inj ht
    rw [← hrun.sysTick]
    exact iff_of_true hkept (by simp [MaskKept, henters])
  | unsaved hallowed henters hone =>
    obtain ⟨rfl, rfl⟩ := Prod.mk.inj ht
    rw [← hrun.sysTick]
    exact iff_of_true hkept (by simp [MaskKept, hone])
  | masked hallowed henters hone htwo =>
    obtain ⟨rfl, rfl⟩ := Prod.mk.inj ht
    rw [hset, restored_iff_mask hrun, hrun.wakeupMask]
    exact iff_of_false (by decide) fun hnot => hnot ⟨hallowed, henters, hone, htwo⟩
  | pending hallowed henters hone htwo hthree hpending =>
    obtain ⟨rfl, rfl⟩ := Prod.mk.inj ht
    rw [hset, restored_iff_mask hrun]
    exact iff_of_true rfl (by simp [MaskKept, htwo])
  | woken hallowed henters hone htwo hthree hpending =>
    obtain ⟨rfl, rfl⟩ := Prod.mk.inj ht
    rw [← hrun.lpmState, hset, restored_iff_mask hrun]
    exact iff_of_true rfl (by simp [MaskKept, htwo])

theorem standby_restored_iff {fuel : ℕ} {r : StandbyReads} (hrun : Running cfg s)
    (h : lpmStandbyProcess cfg fuel r s = some t) : Restored cfg s t ↔ MaskKept (.standby r) := by
  have hkept : Restored cfg s s := ⟨rfl, hrun, fun _ => rfl⟩
  simp only [lpmStandbyProcess] at h
  split at h
  next hallowed =>
    obtain rfl := Option.some.inj h
    exact iff_of_true hkept (by simp [MaskKept, entersStandby, hallowed])
  next =>
    split at h
    next henter =>
      split at h
      next hticks =>
        obtain rfl := Option.some.inj h
        exact iff_of_true hkept (by simp [MaskKept, entersStandby, hticks])
      next hallowed hticks =>
        obtain ⟨u, hentry, rfl⟩ := Option.map_eq_some_iff.mp h
        have hleft := @lpmArmEntryStandby_left cfg r { lpmEnterCritical s with sysTick := false } u fuel hrun.xipMode
          hrun.standbyEnterXip hrun.firstEnter hrun.uart hentry
        have henters : entersStandby r = true := by simp [entersStandby, hallowed, hticks, henter]
        have hmask : MaskKept (.standby r) ↔ r.dspExit ≠ .notLoaded := by simp [MaskKept, henters]
        rw [hmask, ← wakeupMaskOf_eq_three, ← hleft.wakeupMask]
        constructor
        · exact fun hrestored => hrestored.running.wakeupMask
        · intro hthree
          have hnesting : u.criticalNesting - 1 = s.criticalNesting := by
            rw [hleft.criticalNesting]
            rfl
          exact ⟨hnesting, ⟨rfl, hthree, hleft.xipMode, hleft.standbyEnterXip, hleft.lpmState,
            fun hopen => ⟨(hleft.uart hopen).1, (hleft.uart hopen).2.1⟩, hleft.firstEnter⟩,
            fun hopen => (hleft.uart hopen).2.2⟩
    next henter =>
      obtain rfl := Option.some.inj h
      refine iff_of_true hkept ?_
      rintro ⟨henters, -⟩
      simp only [entersStandby, Bool.and_eq_true, decide_eq_true_eq] at henters
      exact henter ⟨henters.1.1.2, henters.1.2⟩

theorem lowPower_restored_iff {fuel : ℕ} {app : α} {call : Call} (hrun : Running cfg s)
    (h : process nvWriteToFlash cfg fuel app call s = some t) : Restored cfg s t ↔ MaskKept call := by
  cases call with
  | deepsleep offtime deepsleepTime r =>
    obtain ⟨⟨exit, t, app'⟩, hprocess, rfl⟩ := Option.map_eq_some_iff.mp h
    exact deepsleep_restored_iff hrun hprocess
  | standby r => exact standby_restored_iff hrun h

/-! ### A deep sleep that is given up -/

def exampleConfig : Config := ⟨false, false, true⟩

theorem running_exampleRegs : Running exampleConfig exampleRegs := ⟨rfl, rfl, rfl, rfl, rfl, fun _ => ⟨rfl, rfl⟩, rfl⟩

theorem lowPower_restored_iff_pending :
    Restored exampleConfig exampleRegs exampleRegs ↔
      MaskKept (.deepsleep 0 1000 (exampleReads .deepsleepReady .deepsleepReady)) :=
  @lowPower_restored_iff Unit id exampleConfig exampleRegs exampleRegs 0 () _ running_exampleRegs (by decide)

/-- The DSP wakes up between the two checks, and the mask stays 2. -/
theorem not_alwaysRestored :
    ¬ ∀ (cfg : Config) (fuel : ℕ) (call : Call) (s t : Regs), Running cfg s →
      process (id : Unit → Unit) cfg fuel () call s = some t → Restored cfg s t := by
  intro h
  have hprocess :
      process (id : Unit → Unit) exampleConfig 0 () (.deepsleep 0 1000 (exampleReads .deepsleepReady .alive)) exampleRegs =
        some { exampleRegs with wakeupMask := 0x02 } := by decide
  exact absurd (h _ _ _ _ _ running_exampleRegs hprocess).running.wakeupMask (by decide)

end NbiotXY1100.LowPowerEntry
