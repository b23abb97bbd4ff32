import Mathlib.Data.List.Basic
import Mathlib.Data.List.Infix
import Mathlib.Algebra.GroupWithZero.Nat

/-! # The answer to reset of a SIM card

`ATR_Receive` of `smartcard.c` and its byte parser. The card's bytes are a list that ends
with a time-out. The parser finds its next state from the number of the present one and
from the bits of the last format byte. -/
namespace NbiotXY1100.SimCard

/-- `ATR_CTRL_STATE`, in the order of the enumeration. -/
inductive AtrCtrlState where
  | none | rstLow | vccPoweron | ioModeIn | clkInit | ioPullup | rstHigh
  | parseTS | parseT0 | parseTA1 | parseTB1 | parseTC1 | parseTD1 | parseTA2 | parseTB2 | parseTC2 | parseTD2
  | parseTAi | parseTBi | parseTCi | parseTDi | parseHistoryBytes | parseTCK | success | failure
  deriving DecidableEq, Repr

inductive SimCardProcedure where
  | none | coldRstActivation | warmRstActivation | pps | t0Cmd | t1Cmd | clkStop | deactivation
  deriving DecidableEq, Repr

inductive T0CmdState where
  | none | null | ack | ins | complementIns | sw1 | success | failure
  deriving DecidableEq, Repr

/-- The part of `SimCard_Profile` that is read or reported. -/
structure SimCardProfile where
  ta2SpecificMode : UInt8
  classClock : UInt8
  wi : UInt8
  fi : ℕ
  di : ℕ
  guardTime : ℕ
  tIndicated : ℕ
  deriving DecidableEq, Repr

/-- `SC7816_Item` and the global `default_TA1`. -/
structure SimDriver where
  profile : SimCardProfile
  currentProcedure : SimCardProcedure
  atrState : AtrCtrlState
  t0State : T0CmdState
  defaultTA1 : UInt8
  deriving DecidableEq, Repr

def maxAtrCharacterLen : ℕ := 33

def fiTable : List ℕ := [372, 372, 558, 744, 1116, 1488, 1860, 0, 0, 512, 768, 1024, 1536, 2048, 0, 0]

def diTable : List ℕ := [0, 1, 2, 4, 8, 16, 32, 64, 12, 20, 0, 0, 0, 0, 0, 0]

def highNibble (c : UInt8) : UInt8 := (c &&& 0xF0) >>> 4

def lowNibble (c : UInt8) : UInt8 := c &&& 0x0F

def codedFi (ta1 : UInt8) : ℕ := fiTable.getD (highNibble ta1).toNat 0

def codedDi (ta1 : UInt8) : ℕ := diTable.getD (lowNibble ta1).toNat 0

def defaultFd : ℕ := 372
def defaultDd : ℕ := 1

def initSimCardItem (s : SimDriver) : SimDriver :=
  { s with
    atrState := .none
    t0State := .none
    currentProcedure := .none
    profile := ⟨0, 0, 10, defaultFd, defaultDd, 2, 1⟩ }

/-- A set bit at or above the position of the present state announces a later state. -/
def switchNextState (currentState : AtrCtrlState) (tBitmap : UInt8) : AtrCtrlState :=
  let currentBit := (currentState.ctorIdx - AtrCtrlState.parseT0.ctorIdx) % 4
  match (List.range' currentBit (4 - currentBit)).find?
      (fun bit => tBitmap &&& (1 <<< UInt8.ofNat bit) ≠ 0) with
  | some bit => AtrCtrlState.ofNat (currentState.ctorIdx + (bit - currentBit) + 1)
  | none => .parseHistoryBytes

/-- The driver with the two locals of `ATR_Receive` that the parser works on. -/
structure AtrParse where
  driver : SimDriver
  tBitmap : UInt8
  historyBytes : UInt8
  deriving DecidableEq, Repr

namespace AtrParse

def state (p : AtrParse) : AtrCtrlState := p.driver.atrState

def setState (p : AtrParse) (state : AtrCtrlState) : AtrParse :=
  { p with driver := { p.driver with atrState := state } }

/-- `atr_state = switch_next_state(atr_state, *T_bitmap)`. -/
def switchNext (p : AtrParse) : AtrParse := p.setState (switchNextState p.state p.tBitmap)

def setProfile (p : AtrParse) (f : SimCardProfile → SimCardProfile) : AtrParse :=
  { p with driver := { p.driver with profile := f p.driver.profile } }

@[simp] theorem setState_state (p : AtrParse) (s : AtrCtrlState) : (p.setState s).state = s := rfl
@[simp] theorem switchNext_state (p : AtrParse) : p.switchNext.state = switchNextState p.state p.tBitmap := rfl
@[simp] theorem setProfile_state (p : AtrParse) (f : SimCardProfile → SimCardProfile) :
    (p.setProfile f).state = p.state := rfl
@[simp] theorem setState_tBitmap (p : AtrParse) (s : AtrCtrlState) : (p.setState s).tBitmap = p.tBitmap := rfl
@[simp] theorem switchNext_tBitmap (p : AtrParse) : p.switchNext.tBitmap = p.tBitmap := rfl
@[simp] theorem setProfile_tBitmap (p : AtrParse) (f : SimCardProfile → SimCardProfile) :
    (p.setProfile f).tBitmap = p.tBitmap := rfl

end AtrParse

/-- `profile.T_indicated |= 1 << T_indicate`. -/
def SimCardProfile.indicate (t : UInt8) (profile : SimCardProfile) : SimCardProfile :=
  { profile with tIndicated := profile.tIndicated ||| 1 <<< t.toNat }

/-- A protocol other than T=0 is indicated. -/
def SimCardProfile.otherIndicated (profile : SimCardProfile) : Bool :=
  profile.tIndicated &&& (2 ^ 16 - 2) ≠ 0

def atrCharacterParse (character : UInt8) (p : AtrParse) : AtrParse :=
  match p.state with
  | .parseTS => p.setState .parseT0
  | .parseT0 =>
    { p with tBitmap := highNibble character, historyBytes := lowNibble character }.switchNext
  | .parseTA1 =>
    let p := { p with driver := { p.driver with defaultTA1 := character } }
    let p := p.setProfile fun profile => { profile with fi := codedFi character, di := codedDi character }
    if codedFi character = 0 ∨ codedDi character = 0 then p.setState .failure else p.switchNext
  | .parseTB1 => p.switchNext
  | .parseTC1 =>
    let guardTime := if character = 255 then 2 else 2 + character.toNat
    (p.setProfile fun profile => { profile with guardTime := guardTime }).switchNext
  | .parseTD1 =>
    let p := { p with tBitmap := highNibble character }
    let p := if lowNibble character = 15 then p else p.setProfile (·.indicate (lowNibble character))
    p.switchNext
  | .parseTA2 =>
    (p.setProfile fun profile => { profile with ta2SpecificMode := character &&& 0x10 }).switchNext
  | .parseTB2 => p.switchNext
  | .parseTC2 => (p.setProfile fun profile => { profile with wi := character }).switchNext
  | .parseTD2 =>
    ({ p with tBitmap := highNibble character }.setProfile (·.indicate (lowNibble character))).switchNext
  | .parseTAi =>
    let p := if p.driver.profile.tIndicated &&& 1 <<< 15 ≠ 0 then
      p.setProfile fun profile => { profile with classClock := character } else p
    p.switchNext
  | .parseTBi => p.switchNext
  | .parseTCi => p.switchNext
  | .parseTDi =>
    -- every later format byte leads back to the states behind the second one
    let p := { p with tBitmap := highNibble character }.setProfile (·.indicate (lowNibble character))
    p.setState (switchNextState .parseTD2 p.tBitmap)
  | .parseHistoryBytes =>
    let p := if p.historyBytes ≠ 0 then { p with historyBytes := p.historyBytes - 1 } else p
    if p.historyBytes = 0 then
      if p.driver.profile.otherIndicated then p.setState .parseTCK else p.setState .success
    else p
  | _ => p

/-- What `ATR_Receive` returns and leaves: the writes to the buffer, as pairs of an index and
a byte, and the card's bytes that were not taken. -/
structure AtrResult where
  result : Bool
  parse : AtrParse
  written : List (UInt8 × UInt8)
  unread : List UInt8
  deriving DecidableEq, Repr

/-- The loop of `ATR_Receive`; `character` is `characters[rcv_num]`. -/
def receiveCharacters (rcvNum checksum : UInt8) (written : List (UInt8 × UInt8)) (character : UInt8)
    (p : AtrParse) (card : List UInt8) : AtrResult :=
  let p := atrCharacterParse character p
  if p.state = .success then ⟨true, p, written, card⟩
  else if p.state = .failure then ⟨false, p, written, card⟩
  else
    match card with
    | [] => ⟨false, p.setState .failure, written, []⟩
    | next :: card =>
      let written := written ++ [(rcvNum + 1, next)]
      let checksum := checksum ^^^ next
      if p.state = .parseTCK then
        if checksum = 0 then ⟨true, p.setState .success, written, card⟩
        else ⟨false, p.setState .failure, written, card⟩
      else receiveCharacters (rcvNum + 1) checksum written next p card

/-- The wait for the first character. After a byte `0x03` up to thirty bytes are taken for
the report; `nullDataNum` counts the dirty ones before it. -/
def receiveTS (nullDataNum : ℕ) : List UInt8 → Option (List UInt8) × List UInt8
  | [] => (none, [])
  | data :: card =>
    if data = 0x3B then (some card, card)
    else if data = 0x3 then (none, card.drop (30 - (nullDataNum + 1)))
    else if nullDataNum + 1 > 15 then (none, card)
    else receiveTS (nullDataNum + 1) card

def atrReceive (card : List UInt8) (s : SimDriver) : AtrResult :=
  match receiveTS 0 card with
  | (none, unread) => ⟨false, AtrParse.setState ⟨s, 0, 0⟩ .failure, [], unread⟩
  | (some card, _) => receiveCharacters 0 0 [(0, 0x3B)] 0x3B (AtrParse.setState ⟨s, 0, 0⟩ .parseTS) card

end NbiotXY1100.SimCard
