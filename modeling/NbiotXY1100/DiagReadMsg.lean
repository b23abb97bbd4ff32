import Mathlib.Data.List.Basic

/-! # Reception of diagnostic commands

`ParseData` takes the bytes of the log port one after the other and keeps them in one buffer. A command
that is complete is handed over with the buffer as it is. -/
namespace NbiotXY1100.DiagReadMsg

def headerLen : ℕ := 3

def maxPacketLen : ℕ := 300

def dataLenSize : ℕ := 2

/-- `sizeof(ItemHeader_t)`. -/
def itemHeaderSize : ℕ := 16

def chip1100 : UInt8 := 0xEF

def chip1100E : UInt8 := 0xEE

/-- `bDumpFile`: it selects `uart_cmd_dump` or `uart_cmd_process`. -/
inductive XyDumpFlag
  | startDump
  | revPccmd
  deriving DecidableEq, Repr

inductive Status
  | revHeader
  | revLen
  | revData
  | revChksum
  | revChip
  deriving DecidableEq, Repr

/-- `status`, `log_index`, `chipType` and `charaucATBuffer`. -/
structure Diag where
  status : Status
  logIndex : ℕ
  chipType : UInt8
  buffer : List UInt8

def Diag.init : Diag := ⟨.revHeader, 0, chip1100, List.replicate maxPacketLen 0⟩

/-- A call of `uart_cmd_process` or of `uart_cmd_dump` with the buffer. -/
abbrev Handed := XyDumpFlag × List UInt8

def isItemHeaderChar : ℕ → UInt8
  | 0 => 0x5A
  | 1 => 0xA5
  | 2 => 0xFE
  | _ => 0xFF

/-- The field `u16Len` of the `ItemHeader_t` in a buffer. -/
def u16Len (buf : List UInt8) : ℕ := (buf.getD 4 0).toNat + 256 * (buf.getD 5 0).toNat

def Diag.checkIndex (s : Diag) : Diag :=
  if maxPacketLen ≤ s.logIndex then { s with logIndex := 0, status := .revHeader } else s

def Diag.resetMem (s : Diag) : Diag := { s with logIndex := 0, status := .revHeader }

def Diag.next (s : Diag) : Diag := Diag.checkIndex { s with logIndex := s.logIndex + 1 }

def parseHeader (c : UInt8) (s : Diag) : Diag :=
  let logIndex := if isItemHeaderChar s.logIndex = c then s.logIndex + 1 else 0
  { s with logIndex := logIndex, status := if logIndex = headerLen then .revChip else s.status }

def parseLen (s : Diag) : Diag :=
  Diag.next { s with status := if s.logIndex = headerLen + dataLenSize then .revData else s.status }

/-- A byte of the data; the length is tested at each of them. -/
def parseBody (bDumpFile : XyDumpFlag) (s : Diag) : Option Handed × Diag :=
  let len := u16Len s.buffer
  if maxPacketLen < len ∨ len = 0 then (none, s.resetMem)
  else if s.logIndex = len + headerLen + dataLenSize then
    if s.chipType = chip1100 then (some (bDumpFile, s.buffer), s.resetMem)
    else if s.chipType = chip1100E then (none, Diag.next { s with status := .revChksum })
    else (none, s.next)
  else (none, s.next)

def xorAll (bytes : List UInt8) : UInt8 := bytes.foldl (· ^^^ ·) 0

def parseChksum (c : UInt8) (bDumpFile : XyDumpFlag) (s : Diag) : Option Handed × Diag :=
  (if xorAll (s.buffer.take s.logIndex) = c then some (bDumpFile, s.buffer) else none, s.resetMem)

def parseData (c : UInt8) (bDumpFile : XyDumpFlag) (s : Diag) : Option Handed × Diag :=
  let s := { s with buffer := s.buffer.set s.logIndex c }
  match s.status with
  | .revHeader => (none, parseHeader c s)
  | .revChip => (none, { s with chipType := c, logIndex := s.logIndex + 1, status := .revLen })
  | .revLen => (none, parseLen s)
  | .revData => parseBody bDumpFile s
  | .revChksum => parseChksum c bDumpFile s

/-- The bytes of a stream, each with the flag it is passed with. -/
abbrev Stream := List (UInt8 × XyDumpFlag)

def feed : Stream → Diag → List Handed × Diag
  | [], s => ([], s)
  | (c, bDumpFile) :: stream, s =>
    let r := parseData c bDumpFile s
    let rest := feed stream r.2
    (r.1.toList ++ rest.1, rest.2)

/-- The bytes of a command without the check byte. -/
def content (buf : List UInt8) : List UInt8 := buf.take (headerLen + 1 + dataLenSize + u16Len buf)

end NbiotXY1100.DiagReadMsg
