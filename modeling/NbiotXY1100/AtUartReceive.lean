import NbiotXY1100.AtUtils
import Mathlib.Data.List.Infix
import Mathlib.Data.List.TakeWhile
import Mathlib.Tactic.SplitIfs

/-! # Receiving AT commands from the UART

`at_recv_from_uart` collects the chunks that the UART delivers in one buffer and hands each
line over, rewriting the buffer in place. Echo, pass-through and FOTA are off, and the
FIFO always holds more data. -/
namespace NbiotXY1100.AtUartReceive
open CStrings AtUtils

/-- What happens around the lines: whether a result has reset the context before the `n`th
line is examined, and whether the radio has to be switched off first then. -/
structure Env where
  answered : ℕ → Bool
  needOfftime : ℕ → Bool

/-- The part of the context that decides about a line, the number of lines examined and the
commands handed to `send_msg_2_atctl`; `halted` after a failed assertion. -/
structure LineCtx where
  rcvReqNow : Bool
  seen : ℕ
  sent : List (List UInt8)
  halted : Bool
  deriving DecidableEq, Repr

/-- The buffer with all the memory allocated for it, as far as it is allocated. -/
structure UartCtx where
  gFarpsRcvMem : Option (List UInt8)
  gHaveRcvedLen : ℕ
  ctx : LineCtx
  deriving DecidableEq, Repr

def UartCtx.buffered (s : UartCtx) : List UInt8 := (s.gFarpsRcvMem.getD []).take s.gHaveRcvedLen

def atDataMaxLen : ℕ := 4000

def xdsend : List UInt8 := bytes ['A', 'T', '+', 'X', 'D', 'S', 'E', 'N', 'D', '=']

def isCrLf (c : UInt8) : Bool := c = 13 || c = 10

def isBlank (c : UInt8) : Bool := isCrLf c || c = 0

/-- The first `data.length` bytes at an offset are replaced. -/
def memcpyAt (mem : List UInt8) (off : ℕ) (data : List UInt8) : List UInt8 :=
  mem.take off ++ data ++ mem.drop (off + data.length)

def memchr (c : UInt8) (s : List UInt8) : Option ℕ := s.findIdx? (· = c)

def findXdsendCmd (mem : List UInt8) : Bool :=
  xdsend <+: mem.dropWhile isCrLf

/-- Whether the buffer is dirty, otherwise its memory and length without the blank bytes in
front and the position of the line end. -/
def atstrIsDirty (mem : List UInt8) (rcved pchr : ℕ) : Option (List UInt8 × ℕ × Option ℕ) :=
  let k := ((mem.take rcved).takeWhile isBlank).length
  let a := mem.getD k 0
  let t := mem.getD (k + 1) 0
  if k = rcved then some (mem, rcved, some pchr)
  else if (a ≠ 65 ∧ a ≠ 97) ∨ (t ≠ 84 ∧ t ≠ 116) then none
  else if ((mem.take (rcved - 1)).drop k).any (fun c => !isAtChar c) ∨
      (isAtChar (mem.getD (rcved - 1) 0) = false ∧ mem.getD (rcved - 1) 0 ≠ 0) then none
  else if k = 0 then some (mem, rcved, some pchr)
  else
    let text := (mem.drop k).takeWhile (· ≠ 0)
    some (memcpyAt mem 0 (text ++ [0]), text.length, memchr 13 text)

/-- What a line does to the context, and the bytes it leaves in its place. -/
def singleLine (env : Env) (line : List UInt8) (s : LineCtx) : List UInt8 × LineCtx :=
  let atStr := cString line.dropLast
  let rcvReqNow := s.rcvReqNow && !env.answered s.seen
  let next : LineCtx := { s with rcvReqNow := rcvReqNow, seen := s.seen + 1 }
  let offBypass := atStrncasecmp atStr (bytes ['A', 'T', '+', 'F', 'A', 'S', 'T', 'O', 'F', 'F']) ||
    atStrncasecmp atStr (bytes ['A', 'T', '+', 'C', 'P', 'O', 'F'])
  if atStrncasecmp line xdsend then
    let line := line.dropLast ++ [13]
    (line, { next with sent := s.sent ++ [line] })
  else if atStrcasecmp atStr (bytes ['A', 'T', '+', 'A', 'S', 'S', 'E', 'R', 'T']) then
    (line.dropLast ++ [0], { next with halted := true })
  else if !offBypass && env.needOfftime s.seen &&
      !atStrncasecmp atStr (bytes ['A', 'T', '+', 'O', 'F', 'F', 'T', 'I', 'M', 'E']) then
    (line.dropLast ++ [0], next)
  else if !offBypass && rcvReqNow && !isCriticalReq atStr then (line.dropLast ++ [13], next)
  else
    let line := varyToUppercase line.dropLast ++ [13]
    (line, { next with rcvReqNow := true, sent := s.sent ++ [line] })

end NbiotXY1100.AtUartReceive
