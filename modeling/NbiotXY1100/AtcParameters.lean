import Mathlib.Data.Nat.Notation
import Mathlib.Algebra.GroupWithZero.Nat

/-! # Reading AT parameters

The parameter getters of `atc_ps_com.c`. `pCommandBuffer + *pOffset` is the rest of the command
buffer from the offset on; there is no result when a place outside the buffer is read. -/
namespace NbiotXY1100.AtcParameters

inductive ParamResult where
  | ok | empty | error | syntaxError
  deriving DecidableEq, Repr

inductive StopChar where
  | cr | kanma | semicolon | str
  deriving DecidableEq, Repr

def cr : UInt8 := 13

def comma : UInt8 := 44

def semicolon : UInt8 := 59

def quotation : UInt8 := 34

/-! ### Hexadecimal strings -/

def nibbleToAsc (n : UInt8) : UInt8 := if 0x0A ≤ n ∧ n ≤ 0x0F then n - 0x0A + 65 else n + 0x30

/-- `AtcAp_HexToAsc`: what it writes to `pOutData`. -/
def hexToAsc (inputData : List UInt8) : List UInt8 :=
  inputData.flatMap fun (b : UInt8) => [nibbleToAsc (b >>> 4), nibbleToAsc (b &&& 0x0F)]

/-- The value that replaces a digit. -/
def hexValue (c : UInt8) : Option UInt8 :=
  if 48 ≤ c ∧ c ≤ 57 then some (c - 48)
  else if 65 ≤ c ∧ c ≤ 70 then some (c - 65 + 10)
  else if 97 ≤ c ∧ c ≤ 102 then some (c - 97 + 10)
  else none

/-- The loop that moves a quoted string over its opening quotation mark; `false` when it meets a
delimiter first. The character behind the closing mark is moved too. -/
def moveQuoted (s : List UInt8) (i : ℕ) : Option (Bool × List UInt8) :=
  match _hget : s[i]? with
  | none => none
  | some c =>
    if c = quotation then (s[i + 1]?).map fun x => (true, s.set (i - 1) x)
    else if c = comma ∨ c = cr then some (false, s)
    else moveQuoted (s.set (i - 1) c) (i + 1)
termination_by s.length - i
decreasing_by
  obtain ⟨hlt, -⟩ := List.getElem?_eq_some_iff.mp _hget
  rw [List.length_set]
  omega

/-- The loop that overwrites the digits by their values up to a delimiter: how many there are, or
`none` at another character. -/
def convertDigits (s : List UInt8) (i : ℕ) : Option (Option ℕ × List UInt8) :=
  match _hget : s[i]? with
  | none => none
  | some c =>
    if c = comma ∨ c = cr then some (some i, s)
    else
      match hexValue c with
      | none => some (none, s)
      | some v => convertDigits (s.set i v) (i + 1)
termination_by s.length - i
decreasing_by
  obtain ⟨hlt, -⟩ := List.getElem?_eq_some_iff.mp _hget
  rw [List.length_set]
  omega

/-- `pParaStr` after the copy loop of `n` turns. -/
def packDigits (s : List UInt8) (n : ℕ) : List UInt8 :=
  (List.range n).map fun i => s.getD (2 * i) 0 * 16 + s.getD (2 * i + 1) 0

def stopCharOf (c : UInt8) : StopChar :=
  if c = cr then .cr else if c = semicolon then .semicolon else if c = comma then .kanma else .str

/-- What `ATC_CheckHexStrParameter` leaves when it does not fail; `data` is written to `pParaStr`,
and `buffer` is the rest of the command buffer. -/
structure HexCheck where
  strLength : UInt16
  data : List UInt8
  stop : StopChar
  buffer : List UInt8
  deriving DecidableEq

/-- The part of `ATC_CheckHexStrParameter` behind the quotation marks. -/
def checkDigits (s : List UInt8) (figure : ℕ) (quoted : Bool) : Option (Option HexCheck × List UInt8) :=
  (convertDigits s 0).bind fun (count, s) =>
    match count with
    | none => some (none, s)
    | some n =>
      if figure < n ∨ n % 2 ≠ 0 then some (none, s)
      else
        let strLength := UInt16.ofNat (if quoted then n + 2 else n)
        (s[strLength.toNat]?).map fun c => (some ⟨strLength, packDigits s (n / 2), stopCharOf c, s⟩, s)

/-- `ATC_CheckHexStrParameter`; `none` in the first component is `D_ATC_PARAM_ERROR`. -/
def checkHexStrParameter (s : List UInt8) (figure : ℕ) : Option (Option HexCheck × List UInt8) :=
  (s[0]?).bind fun c =>
    if c = cr then some (some ⟨0, [], .cr, s⟩, s)
    else if c = semicolon then some (some ⟨0, [], .semicolon, s⟩, s)
    else if c = comma then some (some ⟨0, [], .kanma, s⟩, s)
    else if c = quotation then
      (moveQuoted s 1).bind fun (closed, s) => if closed then checkDigits s figure true else some (none, s)
    else checkDigits s figure false

/-- What `ATC_GetHexStrParameter` leaves; it returns `D_ATC_PARAM_OK` or `D_ATC_PARAM_ERROR`. -/
structure HexParam where
  ok : Bool
  offset : UInt16
  dataLen : UInt16
  data : List UInt8
  buffer : List UInt8
  deriving DecidableEq

def getHexStrParameter (commandBuffer : List UInt8) (offset maxLen : UInt16) (optFlg lastParameter : UInt8) :
    Option HexParam :=
  (checkHexStrParameter (commandBuffer.drop offset.toNat) maxLen.toNat).map fun (check, rest) =>
    let buffer := commandBuffer.take offset.toNat ++ rest
    match check with
    | none => ⟨false, offset, 0, [], buffer⟩
    | some k =>
      let dataLen := UInt16.ofNat k.data.length
      if optFlg = 0 ∧ dataLen = 0 then ⟨false, offset, dataLen, k.data, buffer⟩
      else if lastParameter = 1 ∧ k.stop ≠ .cr then ⟨false, offset, dataLen, k.data, buffer⟩
      else ⟨true, offset + (if k.stop = .kanma then k.strLength + 1 else k.strLength), dataLen, k.data, buffer⟩

/-! ### Decimal numbers -/

/-- The loop of `AtcAp_UlongToBinary` from character `count` on. -/
def ulongDigits (allowZeroStart : Bool) : List UInt8 → ℕ → UInt32 → Option UInt32
  | [], _, num => some num
  | c :: s, count, num =>
    if 48 ≤ c ∧ c ≤ 57 then
      if allowZeroStart = false ∧ num = 0 ∧ count ≠ 0 then none
      else ulongDigits allowZeroStart s (count + 1) (num * 10 + (c - 48).toUInt32)
    else none

/-- `AtcAp_UlongToBinary` on the characters of the parameter. -/
def ulongToBinary (inputCharStr : List UInt8) (allowZeroStart : Bool) : Option UInt32 :=
  ulongDigits allowZeroStart inputCharStr 0 0

def ushortDigits : List UInt8 → UInt16 → Option UInt16
  | [], num => some num
  | c :: s, num => if 48 ≤ c ∧ c ≤ 57 then ushortDigits s (num * 10 + (c - 48).toUInt16) else none

/-- `ATC_UshortToBinary` on the characters of the parameter. -/
def ushortToBinary (inputCharStr : List UInt8) : Option UInt16 :=
  match inputCharStr with
  | [] => some 0
  | c :: s =>
    if c = 45 then if s = [] then none else (ushortDigits s 0).map fun num => -num
    else ushortDigits (c :: s) 0

/-- The loop that looks for the end of a number from character `count` on: the count and the
kind of the character there. -/
def numberEnd (figure : ℕ) : List UInt8 → ℕ → Option (ℕ × StopChar)
  | [], _ => none
  | c :: s, count =>
    if c = cr then some (count, .cr)
    else if c = semicolon then some (count, .semicolon)
    else if c = comma then some (count, .kanma)
    else if (c < 48 ∨ 57 < c) ∧ c ≠ 45 then some (count, .str)
    else if figure ≤ count then some (count, .str)
    else numberEnd figure s (count + 1)

/-- What the checks of a number leave. -/
structure NumCheck (β : Type) where
  result : ParamResult
  length : UInt8
  binaryData : β
  stop : StopChar
  deriving DecidableEq

/-- The body of the checks of a number, which differ in its width and in the result of a failure. -/
def checkNumber {β : Type} (zero : β) (toBinary : List UInt8 → Option β) (failure : ParamResult) (s : List UInt8)
    (figure : ℕ) : Option (NumCheck β) :=
  match s with
  | [] => none
  | c :: s =>
    if c = cr then some ⟨.empty, 0, zero, .cr⟩
    else if c = semicolon then some ⟨.empty, 0, zero, .semicolon⟩
    else if c = comma then some ⟨.empty, 0, zero, .kanma⟩
    else if (c < 48 ∨ 57 < c) ∧ c ≠ 45 then some ⟨.empty, 0, zero, .str⟩
    else
      (numberEnd figure s 1).map fun (count, stop) =>
        match toBinary ((c :: s).take count) with
        | some num => ⟨.ok, UInt8.ofNat count, num, stop⟩
        | none => ⟨failure, 0, zero, stop⟩

def checkLongNumParameter (s : List UInt8) (figure : ℕ) (allowZeroStart : Bool) : Option (NumCheck UInt32) :=
  checkNumber 0 (ulongToBinary · allowZeroStart) .error s figure

def checkUSNumParameter (s : List UInt8) (figure : ℕ) : Option (NumCheck UInt16) :=
  checkNumber 0 ushortToBinary .syntaxError s figure

inductive CommandResult where
  | ok | parameterError | syntaxError | tooManyParameters
  deriving DecidableEq, Repr

/-- What a decimal getter leaves; `data` is what it stores through `pData`, with `pDataFlag` set. -/
structure DecimalParam (β : Type) where
  ret : CommandResult
  offset : UInt16
  data : Option β
  deriving DecidableEq

/-- The body of the decimal getters, which differ in their range. -/
def getDecimal {β : Type} (inRange : UInt32 → Option β) (check : NumCheck UInt32) (offset : UInt16)
    (optFlag lastParameter : UInt8) : DecimalParam β :=
  let offset := offset + check.length.toUInt16
  let (ret, data) : CommandResult × Option β :=
    match check.result with
    | .ok =>
      match inRange check.binaryData with
      | some num => (.ok, some num)
      | none => (.parameterError, none)
    | .empty => (if optFlag = 0 then .syntaxError else .ok, none)
    | .syntaxError => (.syntaxError, none)
    | .error => (.parameterError, none)
  if check.stop ≠ .cr ∧ ret = .ok then
    if check.stop = .kanma then
      if lastParameter = 1 then ⟨.tooManyParameters, offset, data⟩ else ⟨ret, offset + 1, data⟩
    else ⟨.syntaxError, offset, data⟩
  else ⟨ret, offset, data⟩

def byteInRange (min max : UInt8) (num : UInt32) : Option UInt8 :=
  if min.toUInt32 ≤ num ∧ num ≤ max.toUInt32 ∧ num ≤ 255 then some num.toUInt8 else none

def longInRange (min max num : UInt32) : Option UInt32 := if min ≤ num ∧ num ≤ max then some num else none

def getDecimalParameterByte (commandBuffer : List UInt8) (offset : UInt16) (figure : ℕ) (min max : UInt8)
    (optFlag lastParameter : UInt8) : Option (DecimalParam UInt8) :=
  (checkLongNumParameter (commandBuffer.drop offset.toNat) figure false).map fun check =>
    getDecimal (byteInRange min max) check offset optFlag lastParameter

def getDecimalParameterLong (commandBuffer : List UInt8) (offset : UInt16) (figure : ℕ) (min max : UInt32)
    (optFlag lastParameter : UInt8) (allowZeroStart : Bool) : Option (DecimalParam UInt32) :=
  (checkLongNumParameter (commandBuffer.drop offset.toNat) figure allowZeroStart).map fun check =>
    getDecimal (longInRange min max) check offset optFlag lastParameter

end NbiotXY1100.AtcParameters
