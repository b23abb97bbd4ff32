import NbiotXY1100.ByteBuffers
import NbiotXY1100.CStrings

/-! # Packing of the arguments of a log

`diag_str2memory` scans a format string and stores the arguments of its conversions one behind the other
in a buffer. The rest of the format in memory ends with its terminator; to read what lies behind it is a
fault, as is a store outside the buffer or a `va_arg` of another type than the argument's. -/
namespace NbiotXY1100.DiagFormat
open ByteBuffers CStrings

inductive Fault
  | readBehind
  | writeOutside
  | argument
  deriving DecidableEq, Repr

/-- The arguments: `int`, `char` or pointer, `long long` or `double`, and strings without their terminator. -/
inductive Arg
  | word (w : UInt32)
  | dword (w : UInt64)
  | str (s : List UInt8)
  deriving DecidableEq, Repr

def percent : UInt8 := 37

def star : UInt8 := 42

def dot : UInt8 := 46

/-- The letter l. -/
def letterL : UInt8 := 108

def space : ℕ := 8

/-- The bit that a flag character sets in `align_flags`: '-', '+', ' ', '#' and '0'. -/
def flagBit (c : UInt8) : Option ℕ :=
  if c = 45 then some 16
  else if c = 43 then some 4
  else if c = 32 then some space
  else if c = 35 then some 32
  else if c = 48 then some 1
  else none

def deref : List UInt8 → Except Fault UInt8
  | [] => .error .readBehind
  | c :: _ => .ok c

/-- The loop at `repeat`, with the pointer behind the percent sign or the flag before. -/
def flagLoop : ℕ → List UInt8 → Except Fault (ℕ × List UInt8)
  | _, [] => .error .readBehind
  | alignFlags, c :: p =>
    match flagBit c with
    | some bit => flagLoop (alignFlags ||| bit) p
    | none => .ok (alignFlags, c :: p)

def skipAtoi : List UInt8 → Except Fault (List UInt8)
  | [] => .error .readBehind
  | c :: p => if isDigit c then skipAtoi p else .ok (c :: p)

/-- The field width; `none` where the scan is given up. `field_flag` stays 0. -/
def fieldWidth (p : List UInt8) : Except Fault (Option (List UInt8)) :=
  (deref p).bind fun c =>
    if isDigit c then (skipAtoi p).map some else if c = star then .ok none else .ok (some p)

/-- The precision and `precision_flag`. -/
def precision (p : List UInt8) : Except Fault (Option (Bool × List UInt8)) :=
  (deref p).bind fun c =>
    if c = dot then
      (deref p.tail).bind fun d =>
        if isDigit d then (skipAtoi p.tail).map fun p => some (true, p)
        else if d = star then .ok none
        else .ok (some (false, p.tail))
    else .ok (some (false, p))

/-- The conversion qualifier: how many letters l it has. 'h' and 'q' are given up. -/
def qualifier (p : List UInt8) : Except Fault (Option (ℕ × List UInt8)) :=
  (deref p).bind fun c =>
    if c = 104 ∨ c = 113 then .ok none
    else if c = letterL then
      (deref p.tail).bind fun d => if d = letterL then .ok (some (2, p.tail.tail)) else .ok (some (1, p.tail))
    else .ok (some (0, p))

/-- What the scan of a conversion leaves: the flags, the precision, the qualifier and the place of the
conversion character. -/
structure Directive where
  alignFlags : ℕ
  precisionFlag : Bool
  longs : ℕ
  pfmt : List UInt8

/-- From behind the percent sign to the conversion character. -/
def directive (p : List UInt8) : Except Fault (Option Directive) :=
  (flagLoop 0 p).bind fun (alignFlags, p) =>
    (fieldWidth p).bind fun
      | none => .ok none
      | some p =>
        (precision p).bind fun
          | none => .ok none
          | some (precisionFlag, p) =>
            (qualifier p).map fun q => q.map fun (longs, p) => ⟨alignFlags, precisionFlag, longs, p⟩

/-- `pfmt`, `arg_buf_sz`, the buffer, `pArgBuf` relative to `psrc`, and the arguments left. -/
structure Scan where
  pfmt : List UInt8
  argBufSz : ℕ
  argBuf : List UInt8
  pos : ℕ
  args : List Arg

/-- 'o', 'X', 'x', 'd', 'i', 'u' and 'c'. -/
def isInteger (c : UInt8) : Bool :=
  c == 111 || c == 88 || c == 120 || c == 100 || c == 105 || c == 117 || c == 99

/-- 'e', 'E', 'f', 'g' and 'G'. -/
def isFloat (c : UInt8) : Bool := c == 101 || c == 69 || c == 102 || c == 103 || c == 71

/-- 'a', 'A' and 'n'. -/
def isUnsupported (c : UInt8) : Bool := c == 97 || c == 65 || c == 110

/-- A 64-bit value, low byte first. -/
def dwordBytes (w : UInt64) : List UInt8 :=
  leBytes (UInt32.ofNat w.toNat) ++ leBytes (UInt32.ofNat (w.toNat / 4294967296))

def store (s : Scan) (bytes : List UInt8) : Except Fault (List UInt8) :=
  match copyIn s.argBuf s.pos bytes with
  | none => .error .writeOutside
  | some argBuf => .ok argBuf

def storeWord (s : Scan) : Except Fault Scan :=
  match s.args with
  | .word w :: args =>
    (store s (leBytes w)).map fun argBuf =>
      { s with argBuf := argBuf, argBufSz := s.argBufSz - 4, pos := s.pos + 4, args := args }
  | _ => .error .argument

def storeDword (s : Scan) : Except Fault Scan :=
  match s.args with
  | .dword w :: args =>
    (store s (dwordBytes w)).map fun argBuf =>
      { s with argBuf := argBuf, argBufSz := s.argBufSz - 8, pos := s.pos + 8, args := args }
  | _ => .error .argument

def wordAlign (n : ℕ) : ℕ := (n + 3) / 4 * 4

/-- `str_len`, cut to the space that is left. -/
def cutLength (argBufSz strLen : ℕ) : ℕ := if argBufSz - 1 < strLen then argBufSz - 1 else strLen

/-- A string and its terminator. The pointer is aligned as an address. -/
def storeStr (psrc : ℕ) (s : Scan) : Except Fault Scan :=
  match s.args with
  | .str pstr :: args =>
    let strLen := cutLength s.argBufSz pstr.length
    (store s (pstr.take strLen)).bind fun argBuf =>
      (store { s with argBuf := argBuf, pos := s.pos + strLen } [0]).map fun argBuf =>
        { s with
          argBuf := argBuf
          argBufSz := s.argBufSz - wordAlign (strLen + 1)
          pos := wordAlign (psrc + s.pos + (strLen + 1)) - psrc
          args := args }
  | _ => .error .argument

/-- The switch over the conversion character; `none` stands for `ret = 0`. -/
def convert (psrc longs : ℕ) (c : UInt8) (s : Scan) : Except Fault (Option Scan) :=
  if isInteger c then (if longs ≠ 2 then storeWord s else storeDword s).map some
  else if c = 112 then (storeWord s).map some
  else if isFloat c then if longs = 1 then .ok none else (storeDword s).map some
  else if c = 115 then (storeStr psrc s).map some
  else if isUnsupported c then .ok none
  else .ok (some s)

/-- The body of the loop at a percent sign, and the step of the pointer behind it. -/
def conversion (psrc : ℕ) (s : Scan) : Except Fault (Option Scan) :=
  (directive s.pfmt.tail).bind fun
    | none => .ok none
    | some d =>
      if d.alignFlags &&& space ≠ 0 ∧ d.precisionFlag then .ok none
      else
        (deref d.pfmt).bind fun c =>
          (convert psrc d.longs c s).map fun next => next.map fun s => { s with pfmt := d.pfmt.tail }

/-- The loop; the number is how many turns the counter still allows. The result is the length that is
returned, and the buffer. -/
def scanLoop (psrc : ℕ) : ℕ → Scan → Except Fault (ℕ × List UInt8)
  | 0, s => (deref s.pfmt).map fun _ => (s.pos, s.argBuf)
  | turns + 1, s =>
    (deref s.pfmt).bind fun c =>
      if c = 0 ∨ s.argBufSz < 8 then .ok (s.pos, s.argBuf)
      else if c ≠ percent then scanLoop psrc turns { s with pfmt := s.pfmt.tail }
      else
        (conversion psrc s).bind fun
          | none => .ok (0, s.argBuf)
          | some s => scanLoop psrc turns s

/-- The buffer starts at the address `psrc` and is cleared first. -/
def diagStr2memory (psrc : ℕ) (pfmt : List UInt8) (strLen : UInt8) (argBufSz : ℕ) (args : List Arg) :
    Except Fault (ℕ × List UInt8) :=
  scanLoop psrc strLen.toNat ⟨pfmt, argBufSz, List.replicate argBufSz 0, 0, args⟩

/-- The call in `diag_static_logM3`: the length of the format goes through a parameter of one byte. -/
def diagStaticLogM3Args (psrc : ℕ) (fmt : List UInt8) (argBufSz : ℕ) (args : List Arg) :
    Except Fault (ℕ × List UInt8) :=
  diagStr2memory psrc (fmt ++ [0]) (UInt8.ofNat fmt.length) argBufSz args

end NbiotXY1100.DiagFormat
