import NbiotXY1100.CStrings
import NbiotXY1100.StringSearch
import NbiotXY1100.FotaDownload

/-! # The download of a delta package by HTTP

The receive loop of `http_get` in `fota_by_http.c`. What `recv` delivers is the list of its pieces.
There is no result when a byte outside the receive buffer is read. -/
namespace NbiotXY1100.FotaByHttp
open CStrings StringSearch

def strbufSize : ℕ := 512

/-- "Content-Length: ". -/
def contentLengthKey : List UInt8 := [67, 111, 110, 116, 101, 110, 116, 45, 76, 101, 110, 103, 116, 104, 58, 32]

def lfLf : List UInt8 := [10, 10]

def crLfCrLf : List UInt8 := [13, 10, 13, 10]

def atoi (text : List UInt8) : Option ℤ :=
  let digits := match text.dropWhile isSpace with
    | 45 :: s => s
    | 43 :: s => s
    | s => s
  if digits.all isDigit then none else some (strtol text)

/-- `ota_write_to_flash` with its position and data: whether it returned `XY_OK`, unless it did not return. -/
abbrev FlashWriter (σ : Type) := UInt32 → List UInt8 → σ → Option (Bool × σ)

/-- The variables of the loop; `rt` is -1 as soon as `wtstart` is 1. -/
structure HttpGet (σ : Type) where
  wtstart : Bool
  contentlen : ℤ
  recordContentlen : ℤ
  totalLen : ℕ
  writes : List (UInt32 × List UInt8)
  flash : σ

inductive Status where
  | more
  | done
  | errorExit
  deriving DecidableEq, Repr

section
variable {σ : Type}

def HttpGet.init (flash : σ) : HttpGet σ := ⟨false, 0, 0, 0, [], flash⟩

def buffer (piece : List UInt8) : List UInt8 := piece ++ List.replicate (strbufSize - piece.length) 0

/-- The search for the length, as long as none is known; the outer `none` is a read outside the buffer. -/
def readLength (buf : List UInt8) (s : HttpGet σ) : Option (Option (HttpGet σ)) :=
  if s.contentlen ≠ 0 then some (some s)
  else
    (strstr contentLengthKey buf).bind fun pstr =>
      match pstr with
      | none => some none
      | some k => (atoi (buf.drop (k + contentLengthKey.length))).map fun n =>
          some { s with contentlen := n, recordContentlen := n }

def bodyStart (buf : List UInt8) : Option (Option ℕ) :=
  (strstr lfLf buf).bind fun pstr =>
    match pstr with
    | some k => some (some (k + lfLf.length))
    | none => (strstr crLfCrLf buf).map (Option.map (· + crLfCrLf.length))

variable (write : FlashWriter σ) (gRangeOffset : UInt32)

def passOn (data : List UInt8) (s : HttpGet σ) : Option (Bool × HttpGet σ) :=
  let position := UInt32.ofNat s.totalLen + gRangeOffset
  (write position data s.flash).map fun r => (r.1, { s with writes := s.writes ++ [(position, data)], flash := r.2 })

def checkDone (s : HttpGet σ) : Status × HttpGet σ := (if s.wtstart ∧ s.contentlen = 0 then .done else .more, s)

def receiveHeader (piece : List UInt8) (s : HttpGet σ) : Option (Status × HttpGet σ) :=
  (readLength (buffer piece) s).bind fun read =>
    match read with
    | none => some (.errorExit, s)
    | some s =>
      (bodyStart (buffer piece)).bind fun start =>
        match start with
        | none => some (checkDone s)
        | some k =>
          (passOn write gRangeOffset (piece.drop k) s).map fun (ok, s) =>
            if ok then
              let totalLen := s.totalLen + (piece.drop k).length
              checkDone { s with wtstart := true, totalLen := totalLen, contentlen := s.contentlen - totalLen }
            else (.errorExit, s)

/-- A piece of the body. A negative count is a size that leaves the buffer. -/
def receiveBody (piece : List UInt8) (s : HttpGet σ) : Option (Status × HttpGet σ) :=
  let i : ℤ := if s.contentlen < piece.length then s.contentlen else piece.length
  let contentlen := if s.contentlen < piece.length then 0 else s.contentlen
  if i < 0 then none
  else
    (passOn write gRangeOffset (piece.take i.toNat) s).map fun (ok, s) =>
      if ok then
        checkDone { s with
          totalLen := if (s.totalLen : ℤ) < s.recordContentlen then s.totalLen + i.toNat else s.totalLen
          contentlen := if 0 < contentlen then contentlen - i else contentlen }
      else (.errorExit, s)

/-- The loop. Behind the last piece `select` times out or the connection is closed. -/
def httpGet : List (List UInt8) → HttpGet σ → Option (Status × HttpGet σ)
  | [], s => some (.errorExit, s)
  | piece :: pieces, s =>
    (if s.wtstart then receiveBody write gRangeOffset piece s else receiveHeader write gRangeOffset piece s).bind fun r =>
      if r.1 = .more then httpGet pieces r.2 else some r

end

/-- The model of `ota_write_to_flash` as a writer. The state also holds the memory and the state of the flash
interface at the calls to come. -/
def otaWriter (img : FotaDownload.Image) :
    FlashWriter (FlashMemory.Memory × FotaDownload.OtaState × List FotaDownload.OtaEnv) :=
  fun position data (m, ota, envs) =>
    match envs with
    | [] => none
    | env :: envs =>
      let outcome := FotaDownload.otaWriteToFlash env img position data m ota
      outcome.ret.map fun r => (r.1 = XyFlash.xyOk, (XyFlash.applyAll outcome.ops m, r.2, envs))

end NbiotXY1100.FotaByHttp
