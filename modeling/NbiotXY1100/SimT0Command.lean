import NbiotXY1100.SimT0Exchange

/-! # A command to the SIM card and its repetition

The calls of `T0_Cmd_Handler` with a command of five header bytes or of a header with its data,
and the loop of `SC7816_command` that calls it again after a failure. -/
namespace NbiotXY1100.SimT0Command
open SimCard SimT0 SimT0Exchange

/-- Five header bytes, or a header with at least one data byte. -/
structure Command (txbuff : List UInt8) (len : ℕ) : Prop where
  length : txbuff.length = len
  form : len = 5 ∨ 1 ≤ (txbuff.getD 4 0).toNat ∧ len = 5 + (txbuff.getD 4 0).toNat
  ins : ValidIns (txbuff.getD 1 0)

namespace Command
variable {txbuff : List UInt8} {len : ℕ}

theorem lc_eq_length (h : Command txbuff len) : (parseCommand txbuff len).data.length = (parseCommand txbuff len).lc := by
  have hlength := h.length
  obtain hlen | ⟨hlc, hlen⟩ := h.form
  · simp [parseCommand, hlen]
  · have hne : len ≠ 5 := by omega
    simp only [parseCommand, if_neg hne, List.length_drop]
    omega

/-- A command asks for data or brings data, and not both. -/
theorem le_or_lc (h : Command txbuff len) :
    ((parseCommand txbuff len).le ≠ 0 ∧ (parseCommand txbuff len).lc = 0) ∨
      ((parseCommand txbuff len).le = 0 ∧ (parseCommand txbuff len).lc ≠ 0) := by
  obtain hlen | ⟨hlc, hlen⟩ := h.form
  · refine .inl ⟨?_, if_pos hlen⟩
    simp only [parseCommand, hlen, if_true]
    split
    · exact Nat.succ_ne_zero 255
    · next hp3 =>
      intro hzero
      exact hp3 (UInt8.toNat_inj.mp hzero)
  · have hne : len ≠ 5 := by omega
    refine .inr ⟨if_neg hne, ?_⟩
    simp only [parseCommand, if_neg hne]
    omega

end Command

section
variable {txbuff : List UInt8} {len : ℕ} {rxbuff : List UInt8} {driver : SimDriver}

theorem handler_eq_pollLoop (hproc : InT0Procedure driver) (early : List ℕ) (card : List UInt8) :
    t0CmdHandler txbuff len rxbuff early card driver =
      pollLoop (parseCommand txbuff len) len (startT0 (parseCommand txbuff len) rxbuff early driver) card :=
  if_pos hproc

theorem start_bounded (apdu : TCommandApdu) (early : List ℕ) (hproc : InT0Procedure driver) :
    Bounded apdu rxbuff 30 (startT0 apdu rxbuff early driver) where
  procedure := by
    simp only [startT0, simClkCtrl, InT0Procedure]
    split
    · exact hproc
    · exact .inl rfl
  dirty := Nat.zero_lt_succ 29
  rxNum := Nat.zero_le _
  txNum := Nat.zero_le _
  sent := by simp [startT0]
  inside := rfl
  length := rfl
  rest := rfl

/-- Whatever the card sends, the call ends; it writes the response buffer below `Le + 2` only, has
sent a first part of the data, and leaves the length as it was when it fails. -/
theorem handler_ended (hcmd : Command txbuff len) (hproc : InT0Procedure driver)
    (hrx : (parseCommand txbuff len).le + 2 ≤ rxbuff.length) (early : List ℕ) (card : List UInt8) :
    Ended (parseCommand txbuff len) len rxbuff (t0CmdHandler txbuff len rxbuff early card driver) := by
  rw [handler_eq_pollLoop hproc]
  exact .pollLoop hrx hcmd.lc_eq_length.ge len card (start_bounded _ early hproc)

/-! ### The response to a whole exchange -/

theorem take_set_succ {buf : List UInt8} {n : ℕ} (h : n < buf.length) (c : UInt8) :
    (buf.set n c).take (n + 1) = buf.take n ++ [c] := by
  have hset : n < (buf.set n c).length := by simpa using h
  rw [List.take_succ_eq_append_getElem hset, List.take_set_of_le (Nat.le_refl n), List.getElem_set_self]

theorem receiveAll_take (p : List UInt8) (s : T0State) (h : s.simRxNum + p.length ≤ s.rxbuff.length) :
    (receiveAll p s).rxbuff.take (s.simRxNum + p.length) = s.rxbuff.take s.simRxNum ++ p := by
  induction p generalizing s with
  | nil => simp [receiveAll]
  | cons c p ih =>
    simp only [List.length_cons] at h
    have hnext : (s.receive c).simRxNum + p.length ≤ (s.receive c).rxbuff.length := by
      simp only [T0State.receive, T0State.store, List.length_set]
      omega
    have hrest := ih (s.receive c) hnext
    have htake : (s.receive c).rxbuff.take (s.receive c).simRxNum = s.rxbuff.take s.simRxNum ++ [c] :=
      take_set_succ (by omega) c
    rw [htake, List.append_assoc, List.singleton_append] at hrest
    rw [List.length_cons, ← hrest]
    simp only [T0State.receive, receiveAll, List.foldl_cons]
    congr 1
    omega

theorem receiveAll_length (p : List UInt8) (s : T0State) : (receiveAll p s).rxbuff.length = s.rxbuff.length := by
  induction p generalizing s with
  | nil => rfl
  | cons c p ih => exact (ih (s.receive c)).trans (List.length_set ..)

theorem sendMany_rxbuff (data : List UInt8) (n : ℕ) (s : T0State) :
    (s.sendMany data n).rxbuff = s.rxbuff ∧ (s.sendMany data n).simRxNum = s.simRxNum := by
  induction n generalizing s with
  | zero => exact ⟨rfl, rfl⟩
  | succ n ih => exact ih (s.sendNext data)

/-- The two status bytes lie behind what was there. -/
theorem take_status {buf : List UInt8} {n : ℕ} (h : n + 2 ≤ buf.length) (sw1 sw2 : UInt8) :
    ((buf.set n sw1).set (n + 1) sw2).take (n + 2) = buf.take n ++ [sw1, sw2] := by
  have hset : n + 1 < (buf.set n sw1).length := by
    rw [List.length_set]
    omega
  rw [take_set_succ hset, take_set_succ (by omega), List.append_assoc]
  rfl

/-- The result of a call that met a whole exchange with a conforming card. -/
structure Answered (apdu : TCommandApdu) (acks : List Ack) (payload : List UInt8) (sw1 sw2 : UInt8)
    (r : T0Result) : Prop where
  sent : r.state.sent = headerBytes apdu ++ apdu.data.take (asked acks apdu.lc)
  status : asked acks apdu.le = 0 → r.result = true ∧ r.len = 2 ∧ r.state.rxbuff.take 2 = [sw1, sw2]
  tooFew : 0 < asked acks apdu.le → asked acks apdu.le < apdu.le → r.result = false
  data : asked acks apdu.le = apdu.le → 0 < apdu.le →
    r.result = true ∧ r.len = apdu.le + 2 ∧ r.state.rxbuff.take (apdu.le + 2) = payload ++ [sw1, sw2]
  unread : r.unread = []

theorem finishT0_sent (apdu : TCommandApdu) (s : T0State) (card : List UInt8) :
    (finishT0 apdu len s card).state.sent = s.sent := by
  rw [finishT0]
  split
  · split <;> rfl
  · rfl

theorem finishT0_status {apdu : TCommandApdu} {s : T0State} (h : s.simRxNum = 0) (hbuf : 2 ≤ s.rxbuff.length)
    (card : List UInt8) :
    (finishT0 apdu len s card).result = true ∧ (finishT0 apdu len s card).len = 2 ∧
      (finishT0 apdu len s card).state.rxbuff.take 2 = [s.sw1, s.sw2] := by
  have hnone : ¬ (apdu.le ≠ 0 ∧ s.simRxNum ≠ 0) := fun hc => hc.2 h
  have hstatus := take_status (n := 0) (by omega) s.sw1 s.sw2
  rw [finishT0, if_neg hnone]
  exact ⟨rfl, rfl, hstatus⟩

theorem finishT0_data {apdu : TCommandApdu} {s : T0State} (hle : 0 < apdu.le) (h : s.simRxNum = apdu.le)
    (hbuf : apdu.le + 2 ≤ s.rxbuff.length) (card : List UInt8) :
    (finishT0 apdu len s card).result = true ∧ (finishT0 apdu len s card).len = apdu.le + 2 ∧
      (finishT0 apdu len s card).state.rxbuff.take (apdu.le + 2) = s.rxbuff.take apdu.le ++ [s.sw1, s.sw2] := by
  have hdata : apdu.le ≠ 0 ∧ s.simRxNum ≠ 0 := by omega
  have hall : ¬ s.simRxNum < apdu.le := by omega
  rw [finishT0, if_pos hdata, if_neg hall]
  exact ⟨rfl, rfl, take_status hbuf s.sw1 s.sw2⟩

theorem finishT0_tooFew {apdu : TCommandApdu} {s : T0State} (hsome : 0 < s.simRxNum) (h : s.simRxNum < apdu.le)
    (card : List UInt8) : (finishT0 apdu len s card).result = false := by
  have hdata : apdu.le ≠ 0 ∧ s.simRxNum ≠ 0 := by omega
  rw [finishT0, if_pos hdata, if_pos h]
  rfl

/-- A run that comes to the status bytes in the state `s`. -/
theorem answered_of_status {apdu : TCommandApdu} {acks : List Ack} {payload : List UInt8} {s : T0State}
    (hbuf : apdu.le + 2 ≤ s.rxbuff.length)
    (hsent : s.sent = headerBytes apdu ++ apdu.data.take (asked acks apdu.lc))
    (hnum : s.simRxNum = asked acks apdu.le)
    (hdata : asked acks apdu.le = apdu.le → s.rxbuff.take apdu.le = payload) (sw1 sw2 : UInt8) :
    Answered apdu acks payload sw1 sw2
      (finishT0 apdu len ({ s with sw1 := sw1, sw2 := sw2 }.setT0 .success) []) := by
  generalize hend : { s with sw1 := sw1, sw2 := sw2 }.setT0 .success = e
  have hsent' : e.sent = s.sent := hend ▸ rfl
  have hnum' : e.simRxNum = s.simRxNum := hend ▸ rfl
  have hrxbuff : e.rxbuff = s.rxbuff := hend ▸ rfl
  have hsw : [e.sw1, e.sw2] = [sw1, sw2] := hend ▸ rfl
  rw [hnum] at hnum'
  rw [← hrxbuff] at hbuf hdata
  constructor
  · exact (finishT0_sent ..).trans (hsent'.trans hsent)
  · intro h
    rw [← hsw]
    exact finishT0_status (hnum'.trans h) (Nat.le_of_add_left_le hbuf) []
  · intro hsome hfew
    exact finishT0_tooFew (hnum' ▸ hsome) (hnum' ▸ hfew) []
  · intro hall hle
    rw [← hsw, ← hdata hall]
    exact finishT0_data hle (hnum'.trans hall) hbuf []
  · exact (finishT0_append _ [] []).2

theorem receiveAll_sent (p : List UInt8) (s : T0State) : (receiveAll p s).sent = s.sent := by
  induction p generalizing s with
  | nil => rfl
  | cons c p ih => exact ih (s.receive c)

theorem answered_read (hcmd : Command txbuff len) (hproc : InT0Procedure driver)
    (hrx : (parseCommand txbuff len).le + 2 ≤ rxbuff.length) (hle : (parseCommand txbuff len).le ≠ 0)
    (acks : List Ack) {payload : List UInt8} (hpayload : payload.length = (parseCommand txbuff len).le)
    {sw1 : UInt8} (hs : Status sw1) (sw2 : UInt8) :
    Answered (parseCommand txbuff len) acks payload sw1 sw2
      (t0CmdHandler txbuff len rxbuff []
        (conversation (parseCommand txbuff len).ins acks payload ++ [sw1, sw2]) driver) := by
  have hlc : (parseCommand txbuff len).lc = 0 := hcmd.le_or_lc.elim And.right fun h => absurd h.1 hle
  generalize hapdu : parseCommand txbuff len = apdu at *
  set s := startT0 apdu rxbuff [] driver
  have hins : ValidIns apdu.ins := by
    rw [← hapdu]
    exact hcmd.ins
  have hstart : s.simRxNum + payload.length = apdu.le := (Nat.zero_add _).trans hpayload
  have htake : (payload.take (asked acks apdu.le)).length = asked acks apdu.le := by
    rw [List.length_take, hpayload]
    exact Nat.min_eq_left (asked_le ..)
  have hnum : (receiveAll (payload.take (asked acks apdu.le)) s).simRxNum = asked acks apdu.le := by
    rw [receiveAll_simRxNum, htake]
    exact Nat.zero_add _
  rw [handler_eq_pollLoop hproc, hapdu, pollLoop_read hins hle acks _ hstart, pollLoop_status hins hs, hpayload]
  apply answered_of_status
  · rw [receiveAll_length]
    exact hrx
  · rw [receiveAll_sent, hlc, asked_zero, List.take_zero, List.append_nil]
    rfl
  · exact hnum
  · intro hall
    have hbuf := receiveAll_take payload s (by rw [hstart]; exact Nat.le_trans (Nat.le_add_right _ 2) hrx)
    rw [hall, ← hpayload, List.take_length]
    simpa [s, startT0] using hbuf

theorem sendMany_sent {apdu : TCommandApdu} {s : T0State} {n : ℕ} (hdata : apdu.lc ≤ apdu.data.length)
    (h : Bounded apdu rxbuff 30 s) (hn : s.txNum + n ≤ apdu.lc) :
    (s.sendMany apdu.data n).sent = headerBytes apdu ++ apdu.data.take (s.txNum + n) := by
  rw [(h.sendMany hdata n hn).sent, sendMany_txNum]

theorem answered_write (hcmd : Command txbuff len) (hproc : InT0Procedure driver)
    (hrx : (parseCommand txbuff len).le + 2 ≤ rxbuff.length) (hle : (parseCommand txbuff len).le = 0)
    (acks : List Ack) {sw1 : UInt8} (hs : Status sw1) (sw2 : UInt8) :
    Answered (parseCommand txbuff len) acks [] sw1 sw2
      (t0CmdHandler txbuff len rxbuff []
        (conversation (parseCommand txbuff len).ins acks [] ++ [sw1, sw2]) driver) := by
  have hlc : (parseCommand txbuff len).lc ≠ 0 := hcmd.le_or_lc.elim (fun h => absurd hle h.1) And.right
  have hdata := hcmd.lc_eq_length.ge
  have hstart := @start_bounded rxbuff driver (parseCommand txbuff len) [] hproc
  generalize hapdu : parseCommand txbuff len = apdu at *
  set s := startT0 apdu rxbuff [] driver
  have hins : ValidIns apdu.ins := by
    rw [← hapdu]
    exact hcmd.ins
  have hall : s.txNum + asked acks apdu.lc ≤ apdu.lc := (Nat.zero_add _).trans_le (asked_le ..)
  rw [handler_eq_pollLoop hproc, hapdu, pollLoop_write hins hle hlc acks rfl, pollLoop_status hins hs]
  apply answered_of_status
  · rw [(sendMany_rxbuff ..).1]
    exact hrx
  · refine (sendMany_sent hdata hstart hall).trans ?_
    rw [show s.txNum = 0 from rfl, Nat.zero_add]
  · rw [(sendMany_rxbuff ..).2, hle, asked_zero]
    rfl
  · intro _
    rw [hle, List.take_zero]

/-- What the card answers to a command, up to the status bytes. -/
structure Response (apdu : TCommandApdu) where
  acks : List Ack
  payload : List UInt8
  sw1 : UInt8
  sw2 : UInt8
  payload_length : payload.length = apdu.le
  status : Status sw1

def Response.bytes {apdu : TCommandApdu} (response : Response apdu) : List UInt8 :=
  conversation apdu.ins response.acks response.payload ++ [response.sw1, response.sw2]

theorem handler_answered (hcmd : Command txbuff len) (hproc : InT0Procedure driver)
    (hrx : (parseCommand txbuff len).le + 2 ≤ rxbuff.length) (response : Response (parseCommand txbuff len)) :
    Answered (parseCommand txbuff len) response.acks response.payload response.sw1 response.sw2
      (t0CmdHandler txbuff len rxbuff [] response.bytes driver) := by
  obtain ⟨acks, payload, sw1, sw2, hpayload, hs⟩ := response
  by_cases hle : (parseCommand txbuff len).le = 0
  · rw [hle] at hpayload
    obtain rfl := List.length_eq_zero_iff.mp hpayload
    exact answered_write hcmd hproc hrx hle acks hs sw2
  · exact answered_read hcmd hproc hrx hle acks hpayload hs sw2

/-- An answer that breaks off before its last byte is a failure. -/
theorem handler_cut (hcmd : Command txbuff len) (hproc : InT0Procedure driver)
    (hrx : (parseCommand txbuff len).le + 2 ≤ rxbuff.length) (response : Response (parseCommand txbuff len))
    {cut : List UInt8} (hcut : cut <+: response.bytes) (hne : cut ≠ response.bytes) :
    (t0CmdHandler txbuff len rxbuff [] cut driver).result = false := by
  have hall := (handler_answered hcmd hproc hrx response).unread
  rw [handler_eq_pollLoop hproc] at hall ⊢
  exact pollLoop_cut rfl hall hcut hne

end

/-! ### The repetition in `SC7816_command` -/

/-- What one call of the handler meets. `overflow` is the bit `CSP_INT_RX_OFLOW` after the call. -/
structure Attempt where
  card : List UInt8
  early : List ℕ
  overflow : Bool
  deriving DecidableEq, Repr

/-- The T=0 branch of `SC7816_command`: the calls of the handler, each with the length that it got,
and the response at the end. -/
def sc7816T0 (txbuff : List UInt8) (len : ℕ) (rxbuff : List UInt8) (driver : SimDriver) :
    List Attempt → List (ℕ × T0Result) × Option (List UInt8 × ℕ)
  | [] => ([], none)
  | attempt :: attempts =>
    let r := t0CmdHandler txbuff len rxbuff attempt.early attempt.card driver
    if r.state.t0State = .failure then
      if attempt.overflow then
        let (calls, out) := sc7816T0 txbuff r.len r.state.rxbuff r.state.driver attempts
        ((len, r) :: calls, out)
      else ([(len, r)], some ((r.state.rxbuff.set 0 0x63).set 1 0x01, 2))
    else ([(len, r)], some (r.state.rxbuff, r.len))

/-- Every repetition is a call with the same length, and sends the same header and data. -/
theorem sc7816T0_repeats {txbuff : List UInt8} {len : ℕ} (hcmd : Command txbuff len)
    (attempts : List Attempt) {rxbuff : List UInt8} {driver : SimDriver} (hproc : InT0Procedure driver)
    (hrx : (parseCommand txbuff len).le + 2 ≤ rxbuff.length) :
    ∀ call ∈ (sc7816T0 txbuff len rxbuff driver attempts).1, call.1 = len ∧
      call.2.state.sent = headerBytes (parseCommand txbuff len) ++
        (parseCommand txbuff len).data.take call.2.state.txNum := by
  induction attempts generalizing rxbuff driver with
  | nil => simp [sc7816T0]
  | cons attempt attempts ih =>
    intro call hcall
    have hended := handler_ended hcmd hproc hrx attempt.early attempt.card
    have hhere : call = (len, t0CmdHandler txbuff len rxbuff attempt.early attempt.card driver) →
        call.1 = len ∧ call.2.state.sent = headerBytes (parseCommand txbuff len) ++
          (parseCommand txbuff len).data.take call.2.state.txNum := by
      rintro rfl
      exact ⟨rfl, hended.bounded.sent⟩
    rw [sc7816T0] at hcall
    dsimp only at hcall
    split at hcall
    · next hfailure =>
      split at hcall
      · obtain hcall | hcall := List.mem_cons.mp hcall
        · exact hhere hcall
        · rw [hended.failed (hended.failure.mp hfailure)] at hcall
          exact ih hended.bounded.procedure (hrx.trans hended.bounded.length.ge) call hcall
      · exact hhere (List.mem_singleton.mp hcall)
    · exact hhere (List.mem_singleton.mp hcall)

/-- Every command with data gets all of it sent, whatever the card answers. -/
def DeliversAll : Prop :=
  ∀ (txbuff : List UInt8) (len : ℕ) (rxbuff : List UInt8) (driver : SimDriver), Command txbuff len →
    InT0Procedure driver → (parseCommand txbuff len).le + 2 ≤ rxbuff.length →
    ∀ response : Response (parseCommand txbuff len),
      (t0CmdHandler txbuff len rxbuff [] response.bytes driver).state.sent =
        headerBytes (parseCommand txbuff len) ++ (parseCommand txbuff len).data

/-- A driver after the activation. -/
def exampleDriver : SimDriver where
  profile := { ta2SpecificMode := 0, classClock := 0, wi := 10, fi := 372, di := 1, guardTime := 0, tIndicated := 0 }
  currentProcedure := .t0Cmd
  atrState := .success
  t0State := .none
  defaultTA1 := 0x11

/-- `SELECT` with one data byte. -/
theorem select_command : Command [0x00, 0xA4, 0x00, 0x00, 0x01, 0x3F] 6 :=
  ⟨rfl, by decide, by decide, by decide⟩

/-- The card refuses a command with one data byte before it asks for the byte. -/
theorem not_deliversAll : ¬ DeliversAll := by
  intro h
  let refusal : Response (parseCommand [0x00, 0xA4, 0x00, 0x00, 0x01, 0x3F] 6) :=
    ⟨[], [], 0x6D, 0x00, rfl, by decide, by decide⟩
  have hall := h _ 6 [0, 0] exampleDriver select_command (.inl rfl) (by decide) refusal
  have hsent := (@handler_answered _ 6 [0, 0] exampleDriver select_command (.inl rfl) (by decide) refusal).sent
  rw [hall] at hsent
  exact absurd hsent (by decide)

theorem t0_exchange {txbuff : List UInt8} {len : ℕ} {rxbuff : List UInt8} {driver : SimDriver}
    (hcmd : Command txbuff len) (hproc : InT0Procedure driver)
    (hrx : (parseCommand txbuff len).le + 2 ≤ rxbuff.length) :
    (∀ response : Response (parseCommand txbuff len),
      Answered (parseCommand txbuff len) response.acks response.payload response.sw1 response.sw2
        (t0CmdHandler txbuff len rxbuff [] response.bytes driver) ∧
      ∀ cut, cut <+: response.bytes → cut ≠ response.bytes →
        (t0CmdHandler txbuff len rxbuff [] cut driver).result = false) ∧
    (∀ early card, Ended (parseCommand txbuff len) len rxbuff
      (t0CmdHandler txbuff len rxbuff early card driver)) ∧
    ∀ attempts, ∀ call ∈ (sc7816T0 txbuff len rxbuff driver attempts).1, call.1 = len ∧
      call.2.state.sent = headerBytes (parseCommand txbuff len) ++
        (parseCommand txbuff len).data.take call.2.state.txNum := by
  refine ⟨fun response => ⟨handler_answered hcmd hproc hrx response, ?_⟩, ?_, ?_⟩
  · intro cut hcut hne
    exact handler_cut hcmd hproc hrx response hcut hne
  · exact handler_ended hcmd hproc hrx
  · intro attempts
    exact sc7816T0_repeats hcmd attempts hproc hrx

theorem t0_exchange_select :
    Command [0x00, 0xA4, 0x00, 0x00, 0x01, 0x3F] 6 ∧
      ∀ early card, Ended (parseCommand [0x00, 0xA4, 0x00, 0x00, 0x01, 0x3F] 6) 6 [0, 0]
        (t0CmdHandler [0x00, 0xA4, 0x00, 0x00, 0x01, 0x3F] 6 [0, 0] early card exampleDriver) :=
  ⟨select_command, (@t0_exchange _ 6 [0, 0] exampleDriver select_command (.inl rfl) (by decide)).2.1⟩

end NbiotXY1100.SimT0Command
