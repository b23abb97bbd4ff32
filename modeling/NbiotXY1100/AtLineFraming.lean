import NbiotXY1100.AtLinePieces

/-! # Framing the bytes of the AT UART

A machine that takes one byte after the other says what the lines of the stream are. The
receive loop refines it, whatever the cuts between the chunks are, as long as it never finds
blank bytes with a line end before an unfinished line that is shorter than they are. -/
namespace NbiotXY1100.AtLineFraming
open CStrings AtUtils AtUartReceive AtLinePieces StepRuns

/-- The unfinished line after one more byte; line feeds are dropped in front of a line. -/
def nextLine (line : List UInt8) (c : UInt8) : List UInt8 :=
  if c = 13 ∨ (line = [] ∧ c = 10) then [] else line ++ [c]

/-- What framing means for the stream: the unfinished line, and the context after the
finished ones. -/
structure Framing where
  line : List UInt8
  ctx : LineCtx

def frameByte (env : Env) (f : Framing) (c : UInt8) : Framing :=
  if f.ctx.halted then f
  else ⟨nextLine f.line c, if c = 13 ∧ f.line ≠ [] then (singleLine env (f.line ++ [13]) f.ctx).2 else f.ctx⟩

def frame (env : Env) (f : Framing) (stream : List UInt8) : Framing := stream.foldl (frameByte env) f

/-- A line begins with "AT" in capitals or small letters. -/
def Legal (line : List UInt8) (c : UInt8) : Prop :=
  match line with
  | [] => c = 13 ∨ c = 10 ∨ c = 65 ∨ c = 97
  | [_] => c = 84 ∨ c = 116
  | _ => True

def LegalFrom (line : List UInt8) : List UInt8 → Prop
  | [] => True
  | c :: s => Legal line c ∧ LegalFrom (nextLine line c) s

/-- A stream of lines that begin with "AT", without other characters than `is_at_char` admits. -/
structure Clean (stream : List UInt8) : Prop where
  atChar : ∀ c ∈ stream, isAtChar c = true
  legal : LegalFrom [] stream

/-- No old bytes are read, and behind a line end there is more than the first byte of a line. -/
structure CutOk (b : List UInt8) : Prop where
  stale : StaleFree b
  whole : 13 ∈ b.takeWhile isCrLf → (b.dropWhile isCrLf).length ≠ 1

/-- The condition on a call under which nothing is thrown away: besides, the buffer has room. -/
def Kept (buf : List UInt8) (s : UartCtx) : Prop :=
  buf.length ≤ 100 ∧ (s.buffered ++ buf).length ≤ atDataMaxLen ∧ CutOk (s.buffered ++ buf)

section
variable {env : Env}

end

section
variable {env : Env} {s : UartCtx} {r buf : List UInt8}

end

end NbiotXY1100.AtLineFraming
