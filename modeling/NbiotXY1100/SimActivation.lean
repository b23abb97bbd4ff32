import NbiotXY1100.SimAtrReception
import NbiotXY1100.StepRuns

/-! # Activation of a SIM card

The power-on request of `SC7816_command`: a cold reset, and in the negotiable mode an
exchange of protocol parameters. The request repeats the `TA1` byte that the parser saw
last, which may be one of an earlier card. -/
namespace NbiotXY1100.SimActivation
open SimCard SimAtr SimAtrReception

/-- An answer to one activation: the card's answer to reset and its PPS response. -/
structure Answer where
  atr : Atr
  pps : List UInt8
  deriving DecidableEq, Repr

/-- The first half of `SimCard_ColdReset`, up to the release of the reset line. -/
def startReset (s : SimDriver) : SimDriver :=
  { initSimCardItem s with currentProcedure := .coldRstActivation, atrState := .rstHigh }

/-- The second half of `SimCard_ColdReset`, on the outcome of `ATR_Receive`. -/
def endReset (volClass : UInt8) (r : AtrResult) : SimDriver :=
  let s := r.parse.driver
  if r.result = false then s
  else if s.profile.classClock ≠ 0 ∧ s.profile.classClock &&& volClass = 0 then s
  else if s.profile.ta2SpecificMode ≠ 0 then { s with currentProcedure := .t0Cmd }
  else { s with currentProcedure := .pps }

def simCardColdReset (volClass : UInt8) (card : List UInt8) (s : SimDriver) : SimDriver :=
  endReset volClass (atrReceive card (startReset s))

structure PpsElement where
  ppss : UInt8
  pps0 : UInt8
  pps1 : UInt8
  pps2 : UInt8
  pps3 : UInt8
  pck : UInt8
  deriving DecidableEq, Repr

def characterReceive : List UInt8 → Option (UInt8 × List UInt8)
  | [] => none
  | c :: card => some (c, card)

/-- An optional character of the response stays zero if it is not announced. -/
def receiveIf (present : Bool) (card : List UInt8) : Option (UInt8 × List UInt8) :=
  if present then characterReceive card else some (0, card)

/-- The response of `PPS_Exchange`, character by character; `none` after a time-out. -/
def ppsResponse (card : List UInt8) : Option PpsElement := do
  let (ppss, card) ← characterReceive card
  let (pps0, card) ← characterReceive card
  let (pps1, card) ← receiveIf (pps0 &&& 0x10 ≠ 0) card
  let (pps2, card) ← receiveIf (pps0 &&& 0x20 ≠ 0) card
  let (pps3, card) ← receiveIf (pps0 &&& 0x40 ≠ 0) card
  let (pck, _) ← characterReceive card
  return ⟨ppss, pps0, pps1, pps2, pps3, pck⟩

def PpsElement.checksum (r : PpsElement) : UInt8 := r.pck ^^^ r.ppss ^^^ r.pps0 ^^^ r.pps1 ^^^ r.pps2 ^^^ r.pps3

def ppsRequest (s : SimDriver) : PpsElement := ⟨0xFF, 0x10, s.defaultTA1, 0, 0, 0xFF ^^^ 0x10 ^^^ s.defaultTA1⟩

/-- Called in the PPS procedure only; every failure leaves it in there. -/
def ppsExchange (card : List UInt8) (s : SimDriver) : SimDriver :=
  match ppsResponse card with
  | none => s
  | some response =>
    if response.checksum ≠ 0 ∨ response.pps0 &&& 0x0F ≠ (ppsRequest s).pps0 &&& 0x0F then s
    else if response.pps0 &&& 0x10 ≠ 0 then
      if (ppsRequest s).pps1 ≠ response.pps1 then s else { s with currentProcedure := .t0Cmd }
    else { s with profile := { s.profile with fi := defaultFd, di := defaultDd }, currentProcedure := .t0Cmd }

/-- The body of the loop over the supply voltages up to the check of the procedure. -/
def activate (volClass : UInt8) (answer : Answer) (s : SimDriver) : SimDriver :=
  let s := simCardColdReset volClass answer.atr.bytes s
  if s.currentProcedure = .pps then ppsExchange answer.pps s else s

def simCardDeactivation (s : SimDriver) : SimDriver := { s with currentProcedure := .deactivation }

/-- `SIM_ClkCtrl(SIM_CLK_STOP, …)`. -/
def simClkStop (s : SimDriver) : SimDriver :=
  if s.profile.classClock &&& 0xC0 = 0 then s else { s with currentProcedure := .clkStop }

/-- The loop over the supply voltages; the voltage with which a card was activated. -/
def powerOnLoop (answers : ℕ → Answer) (loop : ℕ) : List UInt8 → SimDriver → SimDriver × Option UInt8
  | [], s => (s, none)
  | volClass :: classes, s =>
    let s := activate volClass (answers loop) (simCardDeactivation s)
    if s.currentProcedure = .t0Cmd then (simClkStop s, some volClass)
    else
      let s := simCardDeactivation s
      if s.profile.classClock ≠ 0 ∧ s.profile.classClock &&& classes.headD 0 = 0 then (s, none)
      else powerOnLoop answers (loop + 1) classes s

/-- The driver, the two parameters that choose the voltages and the flag that keeps later
requests to the first one. -/
structure SimSystem where
  driver : SimDriver
  xtalType : UInt8
  simVccCtrl : UInt8
  simvccSelectDone : Bool
  deriving DecidableEq, Repr

/-- The supply voltages in the order in which they are tried; `none` for an assertion. -/
def voltageClasses (xtalType simVccCtrl : UInt8) : Option (List UInt8) :=
  let selectClass := simVccCtrl &&& 7
  let storeRlt := (simVccCtrl &&& 0x70) >>> 4
  if xtalType = 0 then if selectClass = 0 then some [2] else none
  else if selectClass = 0 then some [2]
  else if selectClass = 1 then some [4]
  else if selectClass = 3 ∧ storeRlt = 4 then some [4, 2]
  else if selectClass = 2 ∧ storeRlt = 2 then some [2, 4]
  else if selectClass = 2 then some [4, 2]
  else if selectClass = 3 then some [2, 4]
  else none

/-- The voltage that worked is stored in the factory parameter. -/
def storeVoltage (simVccCtrl volClass : UInt8) : UInt8 :=
  if (simVccCtrl &&& 0x70) >>> 4 ≠ volClass then (simVccCtrl &&& (0x8F : UInt8)) ||| (volClass <<< (4 : UInt8))
  else simVccCtrl

/-- `SC7816_command` with the request `Pw_on`. -/
def sc7816PowerOn (answers : ℕ → Answer) (s : SimSystem) : Option SimSystem :=
  (voltageClasses s.xtalType s.simVccCtrl).map fun classes =>
    let classes := if s.simvccSelectDone then classes.take 1 else classes
    let (driver, activated) := powerOnLoop answers 0 classes s.driver
    let simVccCtrl := activated.elim s.simVccCtrl (storeVoltage s.simVccCtrl)
    { s with driver := driver, simVccCtrl := simVccCtrl, simvccSelectDone := true }

/-- The driver with another remembered `TA1`. -/
def remember (ta1 : UInt8) (s : SimDriver) : SimDriver := { s with defaultTA1 := ta1 }

def rememberIn (ta1 : UInt8) (p : AtrParse) : AtrParse := { p with driver := remember ta1 p.driver }

/-- The parser writes the remembered `TA1` and never reads it. -/
theorem atrCharacterParse_remember (d e c : UInt8) (p : AtrParse) :
    rememberIn e (atrCharacterParse c (rememberIn d p)) = rememberIn e (atrCharacterParse c p) := by
  have hstate : (rememberIn d p).state = p.state := rfl
  have hprofile : (rememberIn d p).driver.profile = p.driver.profile := rfl
  have hhistory : (rememberIn d p).historyBytes = p.historyBytes := rfl
  cases hp : p.state <;> simp only [atrCharacterParse, hstate, hprofile, hhistory, hp]
  case parseHistoryBytes =>
    by_cases h0 : p.historyBytes = 0
    · simp only [h0, ne_eq, not_true_eq_false, if_false, if_true, hprofile]
      rw [if_pos (show (rememberIn d p).historyBytes = 0 from h0)]
      split <;> rfl
    · simp only [h0, ne_eq, not_false_eq_true, if_true, hprofile]
      split
      · split <;> rfl
      · rfl
  all_goals first | rfl | (split <;> rfl)

theorem exists_rememberIn (d c : UInt8) (p : AtrParse) :
    ∃ x, atrCharacterParse c (rememberIn d p) = rememberIn x (atrCharacterParse c p) :=
  ⟨(atrCharacterParse c (rememberIn d p)).driver.defaultTA1, atrCharacterParse_remember d _ c p⟩

def rememberResult (ta1 : UInt8) (r : AtrResult) : AtrResult := { r with parse := rememberIn ta1 r.parse }

theorem receiveCharacters_remember (card : List UInt8) :
    ∀ (rcvNum checksum : UInt8) (written : List (UInt8 × UInt8)) (d c : UInt8) (p : AtrParse),
      ∃ x, receiveCharacters rcvNum checksum written c (rememberIn d p) card =
        rememberResult x (receiveCharacters rcvNum checksum written c p card) := by
  induction card with
  | nil =>
    intro rcvNum checksum written d c p
    obtain ⟨x, hx⟩ := exists_rememberIn d c p
    refine ⟨x, ?_⟩
    rw [receiveCharacters, receiveCharacters, hx]
    have hstate : (rememberIn x (atrCharacterParse c p)).state = (atrCharacterParse c p).state := rfl
    simp only [hstate]
    split
    · rfl
    · split <;> rfl
  | cons next card ih =>
    intro rcvNum checksum written d c p
    obtain ⟨x, hx⟩ := exists_rememberIn d c p
    obtain ⟨y, hy⟩ := ih (rcvNum + 1) (checksum ^^^ next) (written ++ [(rcvNum + 1, next)]) x next
      (atrCharacterParse c p)
    rw [receiveCharacters, receiveCharacters, hx]
    have hstate : (rememberIn x (atrCharacterParse c p)).state = (atrCharacterParse c p).state := rfl
    simp only [hstate]
    split
    · exact ⟨x, rfl⟩
    · split
      · exact ⟨x, rfl⟩
      · split
        · split <;> exact ⟨x, rfl⟩
        · exact ⟨y, hy⟩

theorem atrReceive_remember (card : List UInt8) (d : UInt8) (s : SimDriver) :
    ∃ x, atrReceive card (remember d s) = rememberResult x (atrReceive card s) := by
  rw [atrReceive, atrReceive]
  split
  · exact ⟨d, rfl⟩
  · next rest _ _ => exact receiveCharacters_remember rest 0 0 [(0, 0x3B)] d 0x3B (AtrParse.setState ⟨s, 0, 0⟩ .parseTS)

/-- The driver after boot, which has seen no card. -/
def bootDriver : SimDriver := ⟨⟨0, 0, 0, 0, 0, 0, 0⟩, .none, .none, .none, 0x11⟩

theorem endReset_remember (volClass d : UInt8) (r : AtrResult) :
    endReset volClass (rememberResult d r) = remember d (endReset volClass r) := by
  simp only [endReset, apply_ite (remember d)]
  rfl

/-- A cold reset depends on nothing earlier, apart from the remembered `TA1`. -/
theorem simCardColdReset_remember (volClass : UInt8) (card : List UInt8) (s : SimDriver) :
    ∃ x, simCardColdReset volClass card s = remember x (simCardColdReset volClass card bootDriver) := by
  obtain ⟨x, hx⟩ := atrReceive_remember card s.defaultTA1 (startReset bootDriver)
  have hstart : startReset s = remember s.defaultTA1 (startReset bootDriver) := rfl
  refine ⟨x, ?_⟩
  rw [simCardColdReset, hstart, hx, endReset_remember, simCardColdReset]

theorem endReset_eq (volClass : UInt8) (r : AtrResult) :
    (endReset volClass r).profile = r.parse.driver.profile ∧
      (endReset volClass r).defaultTA1 = r.parse.driver.defaultTA1 := by
  simp only [endReset]
  split
  · exact ⟨rfl, rfl⟩
  · split
    · exact ⟨rfl, rfl⟩
    · split <;> exact ⟨rfl, rfl⟩

theorem announcedAtr_ta1 (a : Atr) : (announcedAtr a.afterTS).ta1 = a.first.ta := by
  have happend : a.afterTS ++ [] = a.afterTS := List.append_nil _
  by_cases h : a.ratesSupported
  · rw [← happend, announcedAtr_supported a h]
    simp [behind, announcedHistory]
  · rw [← happend, (announcedAtr_unsupported a h []).1]

theorem follows_startReset (a : Atr) (s : SimDriver) :
    Follows (announcedAtr a.afterTS) 0 0 [(0, 0x3B)] ⟨startReset s, 0, 0⟩ a.afterTS
      (atrReceive a.bytes (startReset s)) := by
  have h := follows_bytes a (s := startReset s) (otherIndicated_initSimCardItem s) []
  rwa [List.append_nil, List.append_nil] at h

/-- The `TA1` byte that is remembered after the reset, and the rates. -/
theorem simCardColdReset_rates (volClass : UInt8) (a : Atr) (s : SimDriver) :
    (simCardColdReset volClass a.bytes s).defaultTA1 = a.first.ta.getD s.defaultTA1 ∧
      (simCardColdReset volClass a.bytes s).profile.fi = (a.first.ta.map codedFi).getD defaultFd ∧
      (simCardColdReset volClass a.bytes s).profile.di = (a.first.ta.map codedDi).getD defaultDd := by
  have hfollows := follows_startReset a s
  obtain ⟨hprofile, hta1⟩ := endReset_eq volClass (atrReceive a.bytes (startReset s))
  rw [simCardColdReset, hprofile, hta1, hfollows.ta1, hfollows.fi, hfollows.di, announcedAtr_ta1]
  exact ⟨rfl, rfl, rfl⟩

/-- The second level's `TA`, which leaves the specific mode or not. -/
def ta2 (a : Atr) : Option UInt8 := a.later.head?.bind (·.2.ta)

/-- The card insists on the parameters of its answer to reset. -/
def Specific (a : Atr) : Prop := ∃ c ∈ ta2 a, c &&& 0x10 ≠ 0

instance (a : Atr) : Decidable (Specific a) := inferInstanceAs (Decidable (∃ c ∈ ta2 a, _))

theorem announcedAtr_ta2 (a : Atr) (h : (announcedAtr a.afterTS).supported = true) :
    (announcedAtr a.afterTS).ta2 = ta2 a := by
  have happend : a.afterTS ++ [] = a.afterTS := List.append_nil _
  rw [← happend] at h ⊢
  by_cases hrates : a.ratesSupported
  · rw [announcedAtr_supported a hrates]
    simp [behind, announcedHistory, secondTA, ta2]
  · rw [(announcedAtr_unsupported a hrates []).1] at h
    exact absurd h Bool.false_ne_true

theorem ta2SpecificMode_iff (a : Atr) (s : SimDriver) (h : (atrReceive a.bytes (startReset s)).result = true) :
    (atrReceive a.bytes (startReset s)).parse.driver.profile.ta2SpecificMode ≠ 0 ↔ Specific a := by
  have hfollows := follows_startReset a s
  rw [hfollows.ta2, announcedAtr_ta2 a (hfollows.result.mp h).2.1, Specific]
  cases ta2 a with
  | none =>
    simp only [Option.map_none, Option.getD_none]
    exact iff_of_false (fun hne => hne rfl) (by simp)
  | some c => simp

/-- A reset that ends in a procedure has read the mode. -/
theorem simCardColdReset_procedure (volClass : UInt8) (a : Atr) (s : SimDriver) :
    ((simCardColdReset volClass a.bytes s).currentProcedure = .t0Cmd → Specific a) ∧
      ((simCardColdReset volClass a.bytes s).currentProcedure = .pps → ¬Specific a) := by
  have hfollows := follows_startReset a s
  have hstart : (atrReceive a.bytes (startReset s)).parse.driver.currentProcedure = .coldRstActivation :=
    hfollows.procedure
  simp only [simCardColdReset, endReset]
  split
  · rw [hstart]
    exact ⟨nofun, nofun⟩
  · next hresult =>
    have hmode := ta2SpecificMode_iff a s (by simpa using hresult)
    split
    · rw [hstart]
      exact ⟨nofun, nofun⟩
    · split
      · next hne => exact ⟨fun _ => hmode.mp hne, nofun⟩
      · next heq => exact ⟨nofun, fun _ => mt hmode.mpr heq⟩

/-- The rates that the card uses after its answers. -/
def cardRates (answer : Answer) : ℕ × ℕ :=
  if Specific answer.atr then
    ((answer.atr.first.ta.map codedFi).getD defaultFd, (answer.atr.first.ta.map codedDi).getD defaultDd)
  else
    match ppsResponse answer.pps with
    | none => (defaultFd, defaultDd)
    | some r => if r.pps0 &&& 0x10 ≠ 0 then (codedFi r.pps1, codedDi r.pps1) else (defaultFd, defaultDd)

/-- After a successful activation driver and card use the same rates, and the outcome is the
one of a driver that has seen no other card. -/
def InStep (volClass : UInt8) (answer : Answer) (s : SimDriver) : Prop :=
  let t := activate volClass answer s
  let u := activate volClass answer bootDriver
  (t.currentProcedure = .t0Cmd → (t.profile.fi, t.profile.di) = cardRates answer) ∧
    t.currentProcedure = u.currentProcedure ∧ t.profile = u.profile

/-- An answer without `TA1` leads to an exchange that the remembered `TA1` decides: the card
echoes that byte, or the one with which the driver starts. -/
def Stale (volClass : UInt8) (answer : Answer) (s : SimDriver) : Prop :=
  answer.atr.first.ta = none ∧ s.defaultTA1 ≠ 0x11 ∧
    (simCardColdReset volClass answer.atr.bytes bootDriver).currentProcedure = .pps ∧
    ∃ r ∈ ppsResponse answer.pps, r.checksum = 0 ∧ r.pps0 &&& 0x0F = 0 ∧ r.pps0 &&& 0x10 ≠ 0 ∧
      (s.defaultTA1 = r.pps1 ∨ 0x11 = r.pps1)

/-- The reset of any driver is the one of the boot driver with the byte that it remembers. -/
theorem simCardColdReset_eq (volClass : UInt8) (a : Atr) (s : SimDriver) :
    simCardColdReset volClass a.bytes s =
      remember (a.first.ta.getD s.defaultTA1) (simCardColdReset volClass a.bytes bootDriver) := by
  obtain ⟨x, hx⟩ := simCardColdReset_remember volClass a.bytes s
  have hta1 := (simCardColdReset_rates volClass a s).1
  rw [hx] at hta1
  rw [hx, ← hta1]
  rfl

/-- The exchange succeeds with the rates of the answer to reset if the card echoes the byte. -/
theorem ppsExchange_eq (card : List UInt8) (d : UInt8) (s : SimDriver) :
    ppsExchange card (remember d s) =
      match ppsResponse card with
      | none => remember d s
      | some r =>
        if r.checksum = 0 ∧ r.pps0 &&& 0x0F = 0 then
          if r.pps0 &&& 0x10 ≠ 0 then
            if d = r.pps1 then { remember d s with currentProcedure := .t0Cmd } else remember d s
          else { remember d s with
            profile := { s.profile with fi := defaultFd, di := defaultDd }, currentProcedure := .t0Cmd }
        else remember d s := by
  rw [ppsExchange]
  cases ppsResponse card with
  | none => rfl
  | some r =>
    have hrequest : (ppsRequest (remember d s)).pps0 &&& 0x0F = 0 := by
      change (0x10 : UInt8) &&& 0x0F = 0
      decide
    have hpps1 : (ppsRequest (remember d s)).pps1 = d := rfl
    simp only [hrequest, hpps1]
    by_cases hc : r.checksum = 0 <;> by_cases hl : r.pps0 &&& 0x0F = 0 <;> simp [hc, hl, remember]

theorem inStep_iff (volClass : UInt8) (answer : Answer) (s : SimDriver) :
    InStep volClass answer s ↔ ¬Stale volClass answer s := by
  have ht := simCardColdReset_eq volClass answer.atr s
  obtain ⟨hta1, hfi, hdi⟩ := simCardColdReset_rates volClass answer.atr bootDriver
  obtain ⟨hspecific, hnegotiable⟩ := simCardColdReset_procedure volClass answer.atr bootDriver
  simp only [InStep, Stale, activate]
  rw [ht]
  generalize simCardColdReset volClass answer.atr.bytes bootDriver = u at *
  have hprocedure : ∀ d, (remember d u).currentProcedure = u.currentProcedure := fun _ => rfl
  by_cases hpps : u.currentProcedure = .pps
  · have hself : ppsExchange answer.pps u = ppsExchange answer.pps (remember u.defaultTA1 u) := rfl
    simp only [hprocedure, hpps, if_true, true_and]
    rw [hself, ppsExchange_eq, ppsExchange_eq, cardRates, if_neg (hnegotiable hpps), hta1]
    cases hresponse : ppsResponse answer.pps with
    | none => simp [remember, hpps]
    | some r =>
      by_cases hvalid : r.checksum = 0 ∧ r.pps0 &&& 0x0F = 0
      · by_cases hecho : r.pps0 &&& 0x10 = 0
        · simp [hvalid, hecho, remember]
        · have hboot : bootDriver.defaultTA1 = 0x11 := rfl
          cases hta : answer.atr.first.ta with
          | some c =>
            rw [hta] at hfi hdi
            by_cases hc : c = r.pps1
            · subst hc
              simpa [hvalid, hecho, remember] using ⟨hfi, hdi⟩
            · simp [hvalid, hecho, remember, hc, hpps]
          | none =>
            rw [hta] at hfi hdi
            by_cases hd : s.defaultTA1 = r.pps1 <;> by_cases h11 : 0x11 = r.pps1
            · simp [hvalid, hecho, remember, hboot, hd, ← h11]
              exact ⟨hfi.trans (by decide), hdi.trans (by decide)⟩
            · simp [hvalid, hecho, remember, hboot, hd, h11, hpps, Ne.symm h11]
            · have hne : ¬s.defaultTA1 = 0x11 := fun h => hd (h.trans h11)
              simp [hvalid, hecho, remember, hboot, ← h11, hne, hpps]
            · simp [hvalid, hecho, remember, hboot, hd, h11, hpps]
      · simp only [Option.mem_some_iff, exists_eq_left']
        simp [hvalid, remember, hpps]
        exact fun _ _ hc hl => absurd ⟨hc, hl⟩ hvalid
  · simp only [hprocedure, hpps, if_false, false_and, and_false, not_false_eq_true, iff_true]
    refine ⟨fun ht0 => ?_, trivial, rfl⟩
    rw [cardRates, if_pos (hspecific ht0)]
    exact Prod.ext hfi hdi

/-- The condition holds of every activation that the loop over the voltages makes. -/
def AttemptsMeet (P : UInt8 → Answer → SimDriver → Prop) (answers : ℕ → Answer) (loop : ℕ) :
    List UInt8 → SimDriver → Prop
  | [], _ => True
  | volClass :: classes, s =>
    let s := simCardDeactivation s
    let t := activate volClass (answers loop) s
    P volClass (answers loop) s ∧
      (t.currentProcedure ≠ .t0Cmd →
        ¬(t.profile.classClock ≠ 0 ∧ t.profile.classClock &&& classes.headD 0 = 0) →
          AttemptsMeet P answers (loop + 1) classes (simCardDeactivation t))

def PowerOnMeets (P : UInt8 → Answer → SimDriver → Prop) (answers : ℕ → Answer) (s : SimSystem) : Prop :=
  ∀ classes ∈ voltageClasses s.xtalType s.simVccCtrl,
    AttemptsMeet P answers 0 (if s.simvccSelectDone then classes.take 1 else classes) s.driver

theorem attemptsMeet_congr {P Q : UInt8 → Answer → SimDriver → Prop} (h : ∀ v a s, P v a s ↔ Q v a s)
    (answers : ℕ → Answer) (loop : ℕ) (classes : List UInt8) (s : SimDriver) :
    AttemptsMeet P answers loop classes s ↔ AttemptsMeet Q answers loop classes s := by
  induction classes generalizing loop s with
  | nil => rfl
  | cons volClass classes ih =>
    simp only [AttemptsMeet, h, ih]

/-- Over any sequence of power-on requests every activation is in step with its card exactly if
no activation meets a stale exchange. -/
theorem activations_inStep_iff (requests : List (ℕ → Answer)) (s : SimSystem) :
    StepRuns.Along sc7816PowerOn (PowerOnMeets InStep) requests s ↔
      StepRuns.Along sc7816PowerOn (PowerOnMeets fun v a s => ¬Stale v a s) requests s := by
  refine @StepRuns.along_congr _ _ sc7816PowerOn (fun _ => True) _ _ ?_ ?_ requests s trivial
  · intro answers s _
    exact forall₂_congr fun classes _ => attemptsMeet_congr inStep_iff answers 0 _ s.driver
  · intro _ _ _ _ _ _
    trivial

/-- A system with a TCXO and without a chosen voltage, after boot. -/
def bootSystem : SimSystem := ⟨bootDriver, 0, 0, false⟩

/-- A card whose `TA1` codes 512 and 16, and one without `TA1`; both echo the request that
follows the first one. -/
private def fastAnswer : Answer :=
  ⟨⟨⟨some 0x95, none, none⟩, [], [0], none, by decide, plainTck⟩, [0xFF, 0x10, 0x95, 0x7A]⟩

private def plainAnswer : Answer := ⟨⟨⟨none, none, none⟩, [], [0], none, by decide, plainTck⟩, [0xFF, 0x10, 0x95, 0x7A]⟩

/-- The second card is asked for the rates of the first one, and the driver keeps to others. -/
theorem not_activations_inStep :
    ¬∀ requests : List (ℕ → Answer),
      StepRuns.Along sc7816PowerOn (PowerOnMeets InStep) requests bootSystem := by
  intro h
  obtain ⟨s, hs, hclasses, hproc, hrates⟩ : ∃ s, sc7816PowerOn (fun _ => fastAnswer) bootSystem = some s ∧
      voltageClasses s.xtalType s.simVccCtrl = some [2] ∧
      (activate 2 plainAnswer (simCardDeactivation s.driver)).currentProcedure = .t0Cmd ∧
      (activate 2 plainAnswer (simCardDeactivation s.driver)).profile.fi ≠ (cardRates plainAnswer).1 := by
    refine ⟨_, rfl, ?_, ?_, ?_⟩ <;> decide +kernel
  have hsecond := ((h [fun _ => fastAnswer, fun _ => plainAnswer]).2 s hs).1 [2] hclasses
  have hstep : InStep 2 plainAnswer (simCardDeactivation s.driver) := by
    cases hdone : s.simvccSelectDone <;> rw [hdone] at hsecond <;> exact hsecond.1
  exact hrates (congrArg Prod.fst (hstep.1 hproc))

end NbiotXY1100.SimActivation
