import NbiotXY1100.SimCard

/-! # The T=0 command exchange of the SIM driver

`T0_Cmd_Handler` of `smartcard.c` in polling mode. The card's bytes are a list that ends with
a time-out; the transmitter always takes a byte. A byte of the card that comes in before a
reset of the receive FIFO is lost there. -/
namespace NbiotXY1100.SimT0
open SimCard

/-- `T_Command_APDU`, with the third parameter byte. -/
structure TCommandApdu where
  cla : UInt8
  ins : UInt8
  p1 : UInt8
  p2 : UInt8
  p3 : UInt8
  lc : ℕ
  data : List UInt8
  le : ℕ
  deriving DecidableEq, Repr

def parseCommand (txbuff : List UInt8) (len : ℕ) : TCommandApdu :=
  let p3 := txbuff.getD 4 0
  { cla := txbuff.getD 0 0
    ins := txbuff.getD 1 0
    p1 := txbuff.getD 2 0
    p2 := txbuff.getD 3 0
    p3 := p3
    lc := if len = 5 then 0 else p3.toNat
    data := if len = 5 then [] else txbuff.drop 5
    le := if len = 5 then (if p3 = 0 then 256 else p3.toNat) else 0 }

/-- The driver, the response buffer with a flag for a write behind it, the counters of the
handler, the bytes that were sent, and for each coming reset of the receive FIFO the number of
bytes that lie in it. -/
structure T0State where
  driver : SimDriver
  rxbuff : List UInt8
  overrun : Bool
  simRxNum : ℕ
  dirtyNum : ℕ
  sw1 : UInt8
  sw2 : UInt8
  txNum : ℕ
  sent : List UInt8
  early : List ℕ
  deriving DecidableEq, Repr

namespace T0State

def t0State (s : T0State) : T0CmdState := s.driver.t0State

def setT0 (t : T0CmdState) (s : T0State) : T0State := { s with driver := { s.driver with t0State := t } }

/-- `RxAPDU.data[i] = c`. -/
def store (i : ℕ) (c : UInt8) (s : T0State) : T0State :=
  { s with rxbuff := s.rxbuff.set i c, overrun := s.overrun || decide (s.rxbuff.length ≤ i) }

/-- `RxAPDU.data[sim_rx_num] = c; sim_rx_num++`. -/
def receive (c : UInt8) (s : T0State) : T0State := { s.store s.simRxNum c with simRxNum := s.simRxNum + 1 }

/-- `Character_Send(TxAPDU.data[tx_num]); tx_num++`. -/
def sendNext (data : List UInt8) (s : T0State) : T0State :=
  { s with sent := s.sent ++ [data.getD s.txNum 0], txNum := s.txNum + 1 }

/-- `n` rounds of the loop over the data bytes. -/
def sendMany (data : List UInt8) : ℕ → T0State → T0State
  | 0, s => s
  | n + 1, s => sendMany data n (s.sendNext data)

end T0State

/-- The procedure byte: waiting time, all data, one datum, or the first status byte. -/
def procedureByte (ins c : UInt8) : Option T0CmdState :=
  if c = 0x60 then some .null
  else if ins = c then some .ins
  else if ins = c ^^^ 0xFF then some .complementIns
  else if c &&& 0xF0 = 0x90 ∨ c &&& 0xF0 = 0x60 then some .sw1
  else none

/-- The state after a procedure byte; the first status byte is kept. -/
def takeProcedure (t : T0CmdState) (c : UInt8) (s : T0State) : T0State :=
  if t = .sw1 then { s.setT0 t with sw1 := c } else s.setT0 t

/-- Whether the handler goes on after a step, the state, and the card's bytes that are left. -/
abbrev StepResult := Bool × T0State × List UInt8

/-- `while (sim_rx_num < Le)`. -/
def receiveBlock (le : ℕ) (s : T0State) : List UInt8 → StepResult
  | [] => (!decide (s.simRxNum < le), s, [])
  | c :: card => if s.simRxNum < le then receiveBlock le (s.receive c) card else (true, s, c :: card)

/-- `SIM_resetRxFifo`. -/
def resetRxFifo (s : T0State) (card : List UInt8) : T0State × List UInt8 :=
  ({ s with early := s.early.tail }, card.drop (s.early.headD 0))

/-- The `switch` over `T0_state`. -/
def switchT0 (apdu : TCommandApdu) (s : T0State) (card : List UInt8) : StepResult :=
  match s.t0State with
  | .null => (true, s, card)
  | .none => (true, s, card)
  | .ins =>
    if apdu.le ≠ 0 then receiveBlock apdu.le s card
    else if apdu.lc ≠ 0 then
      let (s, card) := resetRxFifo s card
      (true, s.sendMany apdu.data (apdu.lc - s.txNum), card)
    else (false, s, card)
  | .complementIns =>
    if apdu.le ≠ 0 then
      if s.simRxNum < apdu.le then
        match card with
        | [] => (false, s, [])
        | c :: card => (true, s.receive c, card)
      else (true, s, card)
    else if apdu.lc ≠ 0 then (true, if s.txNum < apdu.lc then s.sendNext apdu.data else s, card)
    else (false, s, card)
  | .sw1 =>
    match card with
    | [] => (false, s, [])
    | c :: card => (true, { s with sw2 := c }.setT0 .success, card)
  | _ => (false, s, card)

structure T0Result where
  result : Bool
  state : T0State
  len : ℕ
  unread : List UInt8
  deriving DecidableEq, Repr

/-- `SIM_ClkCtrl(SIM_CLK_STOP, …)` and `SIM_ClkCtrl(SIM_CLK_RESTART, …)`. -/
def simClkCtrl (stop : Bool) (s : SimDriver) : SimDriver :=
  if s.profile.classClock &&& 0xC0 = 0 then s
  else { s with currentProcedure := if stop then .clkStop else .t0Cmd }

def failT0 (len : ℕ) (s : T0State) (card : List UInt8) : T0Result := ⟨false, s.setT0 .failure, len, card⟩

/-- What the handler does after the status bytes. -/
def finishT0 (apdu : TCommandApdu) (len : ℕ) (s : T0State) (card : List UInt8) : T0Result :=
  if apdu.le ≠ 0 ∧ s.simRxNum ≠ 0 then
    if s.simRxNum < apdu.le then failT0 len s card
    else
      let s := (s.store apdu.le s.sw1).store (apdu.le + 1) s.sw2
      ⟨true, { s with driver := simClkCtrl true s.driver }, apdu.le + 2, card⟩
  else
    let s := (s.store 0 s.sw1).store 1 s.sw2
    ⟨true, { s with driver := simClkCtrl true s.driver }, 2, card⟩

theorem receiveBlock_length (le : ℕ) (s : T0State) (card : List UInt8) :
    (receiveBlock le s card).2.2.length ≤ card.length := by
  induction card generalizing s with
  | nil => simp [receiveBlock]
  | cons c card ih =>
    rw [receiveBlock]
    split
    · exact (ih (s.receive c)).trans (Nat.le_succ _)
    · exact Nat.le_refl _

theorem switchT0_length (apdu : TCommandApdu) (s : T0State) (card : List UInt8) :
    (switchT0 apdu s card).2.2.length ≤ card.length := by
  cases ht : s.t0State with
  | null | none | ack | success | failure => simp [switchT0, ht]
  | ins =>
    simp only [switchT0, ht]
    split
    · exact receiveBlock_length apdu.le s card
    · split
      · simp [resetRxFifo]
      · exact Nat.le_refl _
  | complementIns =>
    simp only [switchT0, ht]
    split
    · split
      · cases card <;> simp
      · exact Nat.le_refl _
    · split <;> exact Nat.le_refl _
  | sw1 => cases card <;> simp [switchT0, ht]

/-- The loop of `T0_Cmd_Handler` that reads a procedure byte in every round. -/
def pollLoop (apdu : TCommandApdu) (len : ℕ) (s : T0State) (card : List UInt8) : T0Result :=
  match card with
  | [] => failT0 len s []
  | c :: card =>
    match procedureByte apdu.ins c with
    | none =>
      let s := { s with dirtyNum := s.dirtyNum + 1 }
      if s.dirtyNum = 30 then failT0 len s card else pollLoop apdu len s card
    | some t =>
      match _hstep : switchT0 apdu (takeProcedure t c s) card with
      | (false, next, rest) => failT0 len next rest
      | (true, next, rest) =>
        if next.t0State = .success then finishT0 apdu len next rest else pollLoop apdu len next rest
termination_by card.length
decreasing_by
  · simp
  · have hle := switchT0_length apdu (takeProcedure t c s) card
    rw [_hstep] at hle
    simpa using Nat.lt_succ_of_le hle

/-- What the loop does with the result of the `switch`. -/
def continueLoop (apdu : TCommandApdu) (len : ℕ) (r : StepResult) : T0Result :=
  if r.1 = false then failT0 len r.2.1 r.2.2
  else if r.2.1.t0State = .success then finishT0 apdu len r.2.1 r.2.2
  else pollLoop apdu len r.2.1 r.2.2

theorem pollLoop_nil (apdu : TCommandApdu) (len : ℕ) (s : T0State) :
    pollLoop apdu len s [] = failT0 len s [] := by
  rw [pollLoop]

theorem pollLoop_procedure {apdu : TCommandApdu} {len : ℕ} {s : T0State} {c : UInt8} {card : List UInt8}
    {t : T0CmdState} (h : procedureByte apdu.ins c = some t) :
    pollLoop apdu len s (c :: card) = continueLoop apdu len (switchT0 apdu (takeProcedure t c s) card) := by
  rw [pollLoop, continueLoop]
  split
  · next hnone => simp [h] at hnone
  · next t' ht =>
    obtain rfl : t = t' := Option.some.inj (h.symm.trans ht)
    split
    · next hstep => simp [hstep]
    · next hstep => simp [hstep]

theorem pollLoop_dirty {apdu : TCommandApdu} {len : ℕ} {s : T0State} {c : UInt8} {card : List UInt8}
    (h : procedureByte apdu.ins c = none) :
    pollLoop apdu len s (c :: card) =
      if s.dirtyNum + 1 = 30 then failT0 len { s with dirtyNum := s.dirtyNum + 1 } card
      else pollLoop apdu len { s with dirtyNum := s.dirtyNum + 1 } card := by
  rw [pollLoop, h]

def headerBytes (apdu : TCommandApdu) : List UInt8 := [apdu.cla, apdu.ins, apdu.p1, apdu.p2, apdu.p3]

/-- The state in which the loop starts, after the header was sent. -/
def startT0 (apdu : TCommandApdu) (rxbuff : List UInt8) (early : List ℕ) (driver : SimDriver) : T0State :=
  { driver := { simClkCtrl false driver with t0State := .none }
    rxbuff := rxbuff
    overrun := false
    simRxNum := 0
    dirtyNum := 0
    sw1 := 0
    sw2 := 0
    txNum := 0
    sent := headerBytes apdu
    early := early }

def InT0Procedure (driver : SimDriver) : Prop :=
  driver.currentProcedure = .t0Cmd ∨ driver.currentProcedure = .clkStop

instance (driver : SimDriver) : Decidable (InT0Procedure driver) := inferInstanceAs (Decidable (_ ∨ _))

/-- `T0_Cmd_Handler` with `sim_csp_int_en = 0`. Outside the T=0 procedure nothing is sent. -/
def t0CmdHandler (txbuff : List UInt8) (len : ℕ) (rxbuff : List UInt8) (early : List ℕ) (card : List UInt8)
    (driver : SimDriver) : T0Result :=
  let apdu := parseCommand txbuff len
  let s := startT0 apdu rxbuff early driver
  if InT0Procedure driver then pollLoop apdu len s card
  else failT0 len { s with driver := driver, sent := [] } card

/-- What holds in the loop whatever the card sends. `buf` is the response buffer before the
call; fewer than `limit` bytes were unexpected. -/
structure Bounded (apdu : TCommandApdu) (buf : List UInt8) (limit : ℕ) (s : T0State) : Prop where
  procedure : InT0Procedure s.driver
  dirty : s.dirtyNum < limit
  rxNum : s.simRxNum ≤ apdu.le
  txNum : s.txNum ≤ apdu.lc
  sent : s.sent = headerBytes apdu ++ apdu.data.take s.txNum
  inside : s.overrun = false
  length : s.rxbuff.length = buf.length
  rest : s.rxbuff.drop (apdu.le + 2) = buf.drop (apdu.le + 2)

namespace Bounded

variable {apdu : TCommandApdu} {buf : List UInt8} {limit : ℕ} {s : T0State}

theorem weaken (h : Bounded apdu buf limit s) : Bounded apdu buf (limit + 1) s :=
  ⟨h.procedure, Nat.lt_succ_of_lt h.dirty, h.rxNum, h.txNum, h.sent, h.inside, h.length, h.rest⟩

theorem setT0 (h : Bounded apdu buf limit s) (t : T0CmdState) : Bounded apdu buf limit (s.setT0 t) :=
  ⟨h.procedure, h.dirty, h.rxNum, h.txNum, h.sent, h.inside, h.length, h.rest⟩

theorem takeProcedure (h : Bounded apdu buf limit s) (t : T0CmdState) (c : UInt8) :
    Bounded apdu buf limit (takeProcedure t c s) := by
  rw [SimT0.takeProcedure]
  split
  · exact ⟨h.procedure, h.dirty, h.rxNum, h.txNum, h.sent, h.inside, h.length, h.rest⟩
  · exact h.setT0 t

/-- Only the indices of the data and of the status bytes are written. -/
theorem store (hbuf : apdu.le + 2 ≤ buf.length) (h : Bounded apdu buf limit s) {i : ℕ} (hi : i < apdu.le + 2)
    (c : UInt8) : Bounded apdu buf limit (s.store i c) where
  procedure := h.procedure
  dirty := h.dirty
  rxNum := h.rxNum
  txNum := h.txNum
  sent := h.sent
  inside := by
    have hlen := h.length
    simp only [T0State.store, h.inside, Bool.false_or, decide_eq_false_iff_not]
    omega
  length := (List.length_set ..).trans h.length
  rest := (List.drop_set_of_lt hi).trans h.rest

theorem receive (hbuf : apdu.le + 2 ≤ buf.length) (h : Bounded apdu buf limit s) (hrx : s.simRxNum < apdu.le)
    (c : UInt8) : Bounded apdu buf limit (s.receive c) :=
  have hs := h.store hbuf (Nat.lt_add_right 2 hrx) c
  ⟨hs.procedure, hs.dirty, hrx, hs.txNum, hs.sent, hs.inside, hs.length, hs.rest⟩

theorem sendNext (h : Bounded apdu buf limit s) (htx : s.txNum < apdu.lc) (hdata : apdu.lc ≤ apdu.data.length) :
    Bounded apdu buf limit (s.sendNext apdu.data) where
  procedure := h.procedure
  dirty := h.dirty
  rxNum := h.rxNum
  txNum := htx
  sent := by
    have hlt : s.txNum < apdu.data.length := htx.trans_le hdata
    have htake : apdu.data.take (s.txNum + 1) = apdu.data.take s.txNum ++ [apdu.data.getD s.txNum 0] := by
      rw [List.take_succ_eq_append_getElem hlt, List.getD, List.getElem?_eq_getElem hlt, Option.getD_some]
    simp only [T0State.sendNext, h.sent, htake, List.append_assoc]
  inside := h.inside
  length := h.length
  rest := h.rest

theorem sendMany (hdata : apdu.lc ≤ apdu.data.length) (n : ℕ) (h : Bounded apdu buf limit s)
    (hn : s.txNum + n ≤ apdu.lc) : Bounded apdu buf limit (s.sendMany apdu.data n) := by
  induction n generalizing s with
  | zero => exact h
  | succ n ih =>
    apply ih (h.sendNext (by omega) hdata)
    simp only [T0State.sendNext]
    omega

theorem receiveBlock (hbuf : apdu.le + 2 ≤ buf.length) (card : List UInt8) (h : Bounded apdu buf limit s) :
    Bounded apdu buf limit (receiveBlock apdu.le s card).2.1 := by
  induction card generalizing s with
  | nil => exact h
  | cons c card ih =>
    rw [SimT0.receiveBlock]
    split
    · next hrx => exact ih (h.receive hbuf hrx c)
    · exact h

theorem switchT0 (hbuf : apdu.le + 2 ≤ buf.length) (hdata : apdu.lc ≤ apdu.data.length) (card : List UInt8)
    (h : Bounded apdu buf limit s) : Bounded apdu buf limit (switchT0 apdu s card).2.1 := by
  cases ht : s.t0State with
  | null | none | ack | success | failure => simpa [SimT0.switchT0, ht] using h
  | ins =>
    simp only [SimT0.switchT0, ht]
    split
    · exact h.receiveBlock hbuf card
    · split
      · have hreset : Bounded apdu buf limit (resetRxFifo s card).1 :=
          ⟨h.procedure, h.dirty, h.rxNum, h.txNum, h.sent, h.inside, h.length, h.rest⟩
        have htx := h.txNum
        apply hreset.sendMany hdata
        simp only [resetRxFifo]
        omega
      · exact h
  | complementIns =>
    simp only [SimT0.switchT0, ht]
    split
    · split
      · next hrx =>
        cases card with
        | nil => exact h
        | cons c card => exact h.receive hbuf hrx c
      · exact h
    · split
      · dsimp only
        split
        · next htx => exact h.sendNext htx hdata
        · exact h
      · exact h
  | sw1 =>
    cases card with
    | nil => simpa [SimT0.switchT0, ht] using h
    | cons c card =>
      simp only [SimT0.switchT0, ht]
      exact ⟨h.procedure, h.dirty, h.rxNum, h.txNum, h.sent, h.inside, h.length, h.rest⟩

theorem simClkCtrl (h : Bounded apdu buf limit s) (stop : Bool) :
    Bounded apdu buf limit { s with driver := simClkCtrl stop s.driver } where
  procedure := by
    rw [SimT0.simClkCtrl]
    split
    · exact h.procedure
    · cases stop
      · exact .inl rfl
      · exact .inr rfl
  dirty := h.dirty
  rxNum := h.rxNum
  txNum := h.txNum
  sent := h.sent
  inside := h.inside
  length := h.length
  rest := h.rest

end Bounded

/-- How a call ends: on a failure the length is as it was, on a success it is the one of the
status bytes alone or of all data with the status bytes. -/
structure Ended (apdu : TCommandApdu) (len : ℕ) (buf : List UInt8) (r : T0Result) : Prop where
  bounded : Bounded apdu buf 31 r.state
  failure : r.state.t0State = .failure ↔ r.result = false
  failed : r.result = false → r.len = len
  succeeded : r.result = true → (r.len = 2 ∨ r.len = apdu.le + 2) ∧ r.state.dirtyNum < 30

section
variable {apdu : TCommandApdu} {buf : List UInt8} {s : T0State}

theorem Ended.failT0 (len : ℕ) (card : List UInt8) (h : Bounded apdu buf 31 s) :
    Ended apdu len buf (failT0 len s card) :=
  ⟨h.setT0 .failure, by simp [SimT0.failT0, T0State.t0State, T0State.setT0], fun _ => rfl,
    fun hr => absurd hr Bool.false_ne_true⟩

@[simp] theorem simClkCtrl_t0State (stop : Bool) (d : SimDriver) : (simClkCtrl stop d).t0State = d.t0State := by
  rw [simClkCtrl]
  split <;> rfl

theorem Ended.finishT0 (hbuf : apdu.le + 2 ≤ buf.length) (len : ℕ) (card : List UInt8) (h : Bounded apdu buf 30 s)
    (ht : s.t0State = .success) : Ended apdu len buf (finishT0 apdu len s card) := by
  have hstores : ∀ {i j : ℕ}, i < apdu.le + 2 → j < apdu.le + 2 →
      Bounded apdu buf 30 ((s.store i s.sw1).store j s.sw2) :=
    fun hi hj => (h.store hbuf hi s.sw1).store hbuf hj s.sw2
  have hsuccess : ∀ (t : T0State) (m : ℕ), Bounded apdu buf 30 t → t.t0State = .success →
      m = 2 ∨ m = apdu.le + 2 →
      Ended apdu len buf ⟨true, { t with driver := SimT0.simClkCtrl true t.driver }, m, card⟩ := by
    intro t m hb ht hm
    refine ⟨(hb.simClkCtrl true).weaken, ?_, fun hr => absurd hr.symm Bool.false_ne_true, fun _ => ⟨hm, hb.dirty⟩⟩
    simp only [T0State.t0State, simClkCtrl_t0State] at ht ⊢
    simp [ht]
  rw [SimT0.finishT0]
  split
  · split
    · exact .failT0 len card h.weaken
    · exact hsuccess _ _ (hstores (by omega) (by omega)) ht (.inr rfl)
  · exact hsuccess _ _ (hstores (by omega) (by omega)) ht (.inl rfl)

theorem Ended.pollLoop (hbuf : apdu.le + 2 ≤ buf.length) (hdata : apdu.lc ≤ apdu.data.length) (len : ℕ)
    (card : List UInt8) (h : Bounded apdu buf 30 s) : Ended apdu len buf (pollLoop apdu len s card) := by
  induction hn : card.length using Nat.strong_induction_on generalizing s card with
  | _ n ih =>
    cases card with
    | nil => simpa [pollLoop_nil] using Ended.failT0 len [] h.weaken
    | cons c card =>
      cases hp : procedureByte apdu.ins c with
      | none =>
        have hdirty : ∀ limit, s.dirtyNum + 1 < limit →
            Bounded apdu buf limit { s with dirtyNum := s.dirtyNum + 1 } :=
          fun _ hlimit => ⟨h.procedure, hlimit, h.rxNum, h.txNum, h.sent, h.inside, h.length, h.rest⟩
        have hlimit := h.dirty
        rw [pollLoop_dirty hp]
        split
        · exact .failT0 len card (hdirty 31 (by omega))
        · exact ih card.length (by simp [← hn]) card (hdirty 30 (by omega)) rfl
      | some t =>
        have hswitch := (h.takeProcedure t c).switchT0 hbuf hdata card
        have hlen := switchT0_length apdu (takeProcedure t c s) card
        rw [pollLoop_procedure hp, continueLoop]
        split
        · exact .failT0 len _ hswitch.weaken
        · split
          · next ht => exact .finishT0 hbuf len _ hswitch ht
          · exact ih _ (by simp only [← hn, List.length_cons]; omega) _ hswitch rfl

end

end NbiotXY1100.SimT0
