import NbiotXY1100.CStrings

/-! # Comparing and converting AT texts -/
namespace NbiotXY1100.AtUtils

def bytes (s : List Char) : List UInt8 := s.map Char.toUInt8

def toLower (c : UInt8) : UInt8 := if 65 ≤ c ∧ c ≤ 90 then c + 32 else c

/-- `at_strncasecmp` finds the text equal to `s` up to the length of `s`. -/
def atStrncasecmp (text s : List UInt8) : Bool := (text.take s.length).map toLower = s.map toLower

/-- `at_strcasecmp` finds the texts equal. -/
def atStrcasecmp (text s : List UInt8) : Bool := text.map toLower = s.map toLower

def atCriticalReq : List (List UInt8) :=
  [bytes ['A', 'T', '+', 'N', 'R', 'B'], bytes ['A', 'T', '+', 'R', 'B'],
    bytes ['A', 'T', '+', 'R', 'E', 'S', 'E', 'T'], bytes ['A', 'T', '+', 'S', 'W', 'V', 'E', 'R'],
    bytes ['A', 'T', '+', 'C', 'G', 'M', 'R'], bytes ['A', 'T', '+', 'C', 'G', 'M', 'M'],
    bytes ['A', 'T', '+', 'C', 'G', 'M', 'I'], bytes ['A', 'T', '+', 'N', 'V', '=', 'S', 'A', 'V', 'E'],
    bytes ['A', 'T', '+', 'N', 'E', 'T', 'D', 'O', 'G']]

def isCriticalReq (atStr : List UInt8) : Bool :=
  atCriticalReq.any (atStrncasecmp atStr) &&
    !atStrncasecmp atStr (bytes ['A', 'T', '+', 'R', 'E', 'S', 'E', 'T', 'C', 'T', 'L'])

def isAtChar (c : UInt8) : Bool := (32 ≤ c && c ≤ 126) || c = 13 || c = 10

/-- The name of a command in capitals; what follows `=`, `?` or `:` stays as it is. -/
def varyToUppercase : List UInt8 → List UInt8
  | [] => []
  | c :: s =>
    if c = 61 ∨ c = 63 ∨ c = 58 ∨ c = 13 ∨ c = 0 then c :: s
    else (if 97 ≤ c ∧ c ≤ 122 then c - 32 else c) :: varyToUppercase s

end NbiotXY1100.AtUtils
