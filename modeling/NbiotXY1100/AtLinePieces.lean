import NbiotXY1100.AtUartReceive
import NbiotXY1100.StepRuns

/-! # The commands as pieces of the byte stream

Whatever the UART delivers and wherever it is cut, dirty buffers and overlong ones included, the commands handed over
are pieces of the stream, as long as no call reads old bytes behind a line that it has moved to the front. -/
namespace NbiotXY1100.AtLinePieces
open CStrings AtUtils AtUartReceive StepRuns

/-- A line that passes the check of `atstr_is_dirty`, finished or not. -/
def AtLine (rest : List UInt8) : Prop :=
  ∃ a t l, rest = a :: t :: l ∧ (a = 65 ∨ a = 97) ∧ (t = 84 ∨ t = 116) ∧ ∀ c ∈ l, isAtChar c = true

/-- No line end stands where the buffer keeps old bytes when an unfinished line moves to the front. -/
def StaleFree (b : List UInt8) : Prop :=
  AtLine (b.dropWhile isCrLf) → 13 ∉ b.dropWhile isCrLf → ¬xdsend <+: b.dropWhile isCrLf →
    13 ∉ (b.takeWhile isCrLf).drop ((b.dropWhile isCrLf).length + 1)

/-- The condition on a call: the chunk fits the array of the reading task, and no old bytes are read. -/
def Delivered (buf : List UInt8) (s : UartCtx) : Prop :=
  buf.length ≤ 100 ∧ StaleFree (s.buffered ++ buf)

/-- The content of the buffer. -/
def Buffers (s : UartCtx) (r : List UInt8) : Prop :=
  s.gHaveRcvedLen = r.length ∧
    (s.gFarpsRcvMem = none ∧ r = [] ∨ ∃ tail, s.gFarpsRcvMem = some (r ++ 0 :: tail))

/-- What the loop does with the buffer when it has found a line end at `p`. -/
def examine (mem : List UInt8) (rcved p : ℕ) : Option (List UInt8 × ℕ × Option ℕ) :=
  if findXdsendCmd mem then some (mem, rcved, some p) else atstrIsDirty mem rcved p

section
variable {env : Env} {fuel off len rcved i rcved' p : ℕ} {mem mem' : List UInt8} {s : LineCtx}

end

section
variable {env : Env}

end

end NbiotXY1100.AtLinePieces
