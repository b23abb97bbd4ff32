import NbiotXY1100.ByteBuffers
import NbiotXY1100.CStrings
import NbiotXY1100.TextParsing
import Mathlib.Data.Int.Notation

/-! # The text forms of IP addresses

`inet_pton4`, `inet_pton6` and `xy_ipaddr_check` of `xy_net_api.c`. There is no result when a byte
outside the temporary buffer is read or written; `some none` is the return value 0. -/
namespace NbiotXY1100.InetPton
open ByteBuffers CStrings TextParsing

def store (tmp : List UInt8) (tp : ℕ) (b : UInt8) : Option (List UInt8) :=
  if tp < tmp.length then some (tmp.set tp b) else none

def hexDigitValue (ch : UInt8) : Option ℕ :=
  if 48 ≤ ch ∧ ch ≤ 57 then some (ch.toNat - 48)
  else if 97 ≤ ch ∧ ch ≤ 102 then some (ch.toNat - 97 + 10)
  else if 65 ≤ ch ∧ ch ≤ 70 then some (ch.toNat - 65 + 10)
  else none

/-- The loop of `inet_pton4`. -/
def pton4From : List UInt8 → List UInt8 → ℕ → ℕ → Bool → Option (Option (List UInt8))
  | [], tmp, _, octets, _ => some (if octets < 4 then none else some tmp)
  | ch :: src, tmp, tp, octets, sawDigit =>
    if isDigit ch then
      (tmp[tp]?).bind fun cur =>
        let new := cur.toNat * 10 + (ch.toNat - 48)
        if sawDigit = true ∧ cur = 0 then some none
        else if 255 < new then some none
        else
          (store tmp tp (UInt8.ofNat new)).bind fun tmp =>
            if sawDigit then pton4From src tmp tp octets true
            else if 4 < octets + 1 then some none
            else pton4From src tmp tp (octets + 1) true
    else if ch = 46 ∧ sawDigit = true then
      if octets = 4 then some none
      else (store tmp (tp + 1) 0).bind fun tmp => pton4From src tmp (tp + 1) octets false
    else some none

/-- `inet_pton4`; an octet of `tmp` is set before it is read. -/
def inetPton4 (src : List UInt8) : Option (Option (List UInt8)) :=
  (store (List.replicate 4 0) 0 0).bind fun tmp => pton4From src tmp 0 0 false

/-- The variables of `inet_pton6`; `curtok` is the text from the current token on. -/
structure Pton6 where
  tmp : List UInt8
  tp : ℕ
  colonp : Option ℕ
  curtok : List UInt8
  xdigitsSeen : ℕ
  val : ℕ

def storeGroup (st : Pton6) : Option Pton6 :=
  (store st.tmp st.tp (UInt8.ofNat (st.val >>> 8))).bind fun tmp =>
    (store tmp (st.tp + 1) (UInt8.ofNat (st.val &&& 0xFF))).map fun tmp => { st with tmp := tmp, tp := st.tp + 2 }

/-- The loop of `inet_pton6`. -/
def pton6From : List UInt8 → Pton6 → Option (Option Pton6)
  | [], st => some (some st)
  | ch :: src, st =>
    match hexDigitValue ch with
    | some digit =>
      if st.xdigitsSeen = 4 then some none
      else
        let val := st.val <<< 4 ||| digit
        if 0xFFFF < val then some none
        else pton6From src { st with val := val, xdigitsSeen := st.xdigitsSeen + 1 }
    | none =>
      if ch = 58 then
        if st.xdigitsSeen = 0 then
          if st.colonp.isSome then some none
          else pton6From src { st with curtok := src, colonp := some st.tp }
        else if src = [] then some none
        else if 16 < st.tp + 2 then some none
        else (storeGroup st).bind fun st => pton6From src { st with curtok := src, xdigitsSeen := 0, val := 0 }
      else if ch = 46 ∧ st.tp + 4 ≤ 16 then
        (inetPton4 st.curtok).bind fun quad =>
          match quad with
          | none => some none
          | some bytes =>
            (copyIn st.tmp st.tp bytes).map fun tmp => some { st with tmp := tmp, tp := st.tp + 4, xdigitsSeen := 0 }
      else some none

/-- `inet_pton6` behind the last group: the zeros that `::` stands for. -/
def expandColons (st : Pton6) : Option (Option (List UInt8)) :=
  match st.colonp with
  | some colonp =>
    if st.tp = 16 then some none
    else
      let n := st.tp - colonp
      (copyOut st.tmp colonp n).bind fun moved =>
        (copyIn st.tmp (16 - n) moved).bind fun tmp =>
          (copyIn tmp colonp (List.replicate (16 - n - colonp) 0)).map some
  | none => some (if st.tp ≠ 16 then none else some st.tmp)

/-- `inet_pton6` behind its loop. -/
def finishPton6 (st : Pton6) : Option (Option (List UInt8)) :=
  if 0 < st.xdigitsSeen then
    if 16 < st.tp + 2 then some none else (storeGroup st).bind expandColons
  else expandColons st

def pton6Text (src : List UInt8) : Option (Option (List UInt8)) :=
  (pton6From src ⟨List.replicate 16 0, 0, none, src, 0, 0⟩).bind fun st =>
    match st with
    | none => some none
    | some st => finishPton6 st

/-- `inet_pton6`; a leading `::` requires some special handling. -/
def inetPton6 (src : List UInt8) : Option (Option (List UInt8)) :=
  match src with
  | [] => some none
  | ch :: rest =>
    if ch = 58 then if rest.head? = some 58 then pton6Text rest else some none else pton6Text (ch :: rest)

def xyOk : ℤ := 0

def xyErr : ℤ := -1

def ipv4Type : UInt8 := 0

def ipv6Type : UInt8 := 6

def inetAddrstrlen : ℕ := 16

def inet6Addrstrlen : ℕ := 46

/-- `xy_ipaddr_check` on the characters of the string, or on a null pointer. -/
def xyIpaddrCheck (ipaddr : Option (List UInt8)) (iptype : UInt8) : Option ℤ :=
  match ipaddr with
  | none => some xyErr
  | some s =>
    if s.length = 0 then some xyErr
    else if iptype ≠ ipv4Type ∧ iptype ≠ ipv6Type then some xyErr
    else if iptype = ipv4Type ∧ inetAddrstrlen ≤ s.length then some xyErr
    else if iptype = ipv6Type ∧ inet6Addrstrlen ≤ s.length then some xyErr
    else if iptype = ipv4Type then (inetPton4 s).map fun r => if r.isSome then xyOk else xyErr
    else (inetPton6 s).map fun r => if r.isSome then xyOk else xyErr

/-! ### Four octets -/

/-- Four decimal octets without leading zeros, and their bytes. -/
def IsIpv4 (s bytes : List UInt8) : Prop :=
  ∃ a b c d : UInt8, s = decimal a.toNat ++ 46 :: (decimal b.toNat ++ 46 :: (decimal c.toNat ++ 46 :: decimal d.toNat)) ∧
    bytes = [a, b, c, d]

/-- A number of octets with dots between them. -/
inductive Octets : ℕ → List UInt8 → List UInt8 → Prop where
  | last (a : UInt8) : Octets 1 (decimal a.toNat) [a]
  | cons (a : UInt8) {n : ℕ} {s bytes : List UInt8} (h : Octets n s bytes) :
    Octets (n + 1) (decimal a.toNat ++ 46 :: s) (a :: bytes)

theorem isIpv4_iff (s bytes : List UInt8) : IsIpv4 s bytes ↔ Octets 4 s bytes := by
  constructor
  · rintro ⟨a, b, c, d, rfl, rfl⟩
    exact .cons a (.cons b (.cons c (.last d)))
  · intro h
    cases h with
    | cons a h =>
      cases h with
      | cons b h =>
        cases h with
        | cons c h =>
          cases h with
          | last d => exact ⟨a, b, c, d, rfl, rfl⟩
          | cons d h => cases h

theorem decimal_digit {v d : ℕ} (hv : v ≠ 0) (hd : d < 10) : decimal (v * 10 + d) = decimal v ++ [UInt8.ofNat (48 + d)] := by
  rw [decimal, if_neg (by omega), show (v * 10 + d) / 10 = v by omega, show (v * 10 + d) % 10 = d by omega]

theorem decimal_zero_start {n : ℕ} {w : List UInt8} (h : decimal n = 48 :: w) : w = [] := by
  induction n using decimal.induct generalizing w with
  | case1 n hn =>
    rw [decimal, if_pos hn] at h
    exact (List.cons.inj h).2.symm
  | case2 n hn ih =>
    rw [decimal, if_neg hn] at h
    cases hq : decimal (n / 10) with
    | nil => exact absurd hq (decimal_ne_nil _)
    | cons c w' =>
      rw [hq, List.cons_append] at h
      obtain ⟨rfl, -⟩ := List.cons.inj h
      have hvalue := ofDigits_decimal (n / 10)
      rw [hq, ih hq] at hvalue
      have hzero : ofDigits [48] = 0 := by decide
      omega

theorem le_foldl_digits (w : List UInt8) (n : ℕ) : n ≤ w.foldl (fun n c => 10 * n + (c.toNat - 48)) n := by
  induction w generalizing n with
  | nil => exact Nat.le_refl n
  | cons c w ih =>
    have hle := ih (10 * n + (c.toNat - 48))
    rw [List.foldl_cons]
    omega

theorem le_of_decimal_append {n m : ℕ} {w : List UInt8} (h : decimal n = decimal m ++ w) : m ≤ n := by
  have hn := ofDigits_decimal n
  have hm := ofDigits_decimal m
  rw [h, ofDigits, List.foldl_append, ← ofDigits, hm] at hn
  have hle := le_foldl_digits w m
  omega

/-- The text of the octet that is being read. -/
def octetText : Option UInt8 → List UInt8
  | none => []
  | some b => decimal b.toNat

theorem isDigit_octetText (cur : Option UInt8) : ∀ c ∈ octetText cur, isDigit c = true := by
  cases cur with
  | none => nofun
  | some b => exact isDigit_of_mem_decimal b.toNat

theorem octets_start {n : ℕ} {s bytes : List UInt8} (h : Octets n s bytes) :
    ∃ a : UInt8, s.takeWhile isDigit = decimal a.toNat := by
  cases h with
  | last a => exact ⟨a, takeWhile_span_self (isDigit_of_mem_decimal _)⟩
  | cons a h => exact ⟨a, takeWhile_span (isDigit_of_mem_decimal _) (by decide) _⟩

theorem octets_end {n : ℕ} {t bytes : List UInt8} (ht : ∀ c ∈ t, isDigit c = true) :
    Octets n t bytes ↔ n = 1 ∧ ∃ a : UInt8, t = decimal a.toNat ∧ bytes = [a] := by
  constructor
  · intro h
    cases h with
    | last a => exact ⟨rfl, a, rfl, rfl⟩
    | cons a h => exact absurd rfl (span_ne ht (by decide) _)
  · rintro ⟨rfl, a, rfl, rfl⟩
    exact .last a

theorem octets_dot {n : ℕ} {t s bytes : List UInt8} (ht : ∀ c ∈ t, isDigit c = true) {c : UInt8} (hc : isDigit c = false) :
    Octets (n + 1) (t ++ c :: s) bytes ↔ c = 46 ∧ ∃ a : UInt8, t = decimal a.toNat ∧ ∃ rest, Octets n s rest ∧ bytes = a :: rest := by
  constructor
  · generalize hs : t ++ c :: s = u
    generalize hm : n + 1 = m
    intro h
    cases h with
    | last a => exact absurd hs (span_ne (isDigit_of_mem_decimal _) hc _)
    | cons a h =>
      obtain ⟨rfl, rfl, rfl⟩ := span_unique ht (isDigit_of_mem_decimal _) hc (by decide) hs
      obtain rfl := Nat.succ.inj hm
      exact ⟨rfl, a, rfl, _, h, rfl⟩
  · rintro ⟨rfl, a, rfl, rest, h, rfl⟩
    exact .cons a h

theorem digit_range {ch : UInt8} (h : isDigit ch = true) :
    ∃ d, d < 10 ∧ ch.toNat - 48 = d ∧ ch = UInt8.ofNat (48 + d) := by
  simp only [isDigit, Bool.and_eq_true, decide_eq_true_eq, UInt8.le_iff_toNat_le] at h
  obtain ⟨hlo, hhi⟩ : 48 ≤ ch.toNat ∧ ch.toNat ≤ 57 := h
  refine ⟨ch.toNat - 48, by omega, rfl, ?_⟩
  rw [show 48 + (ch.toNat - 48) = ch.toNat by omega, UInt8.ofNat_toNat]

/-- A digit behind the text of an octet: it is refused, or the text is that of the new value. -/
theorem octetText_digit {cur : Option UInt8} {ch : UInt8} (hch : isDigit ch = true)
    (hzero : ¬(cur.isSome = true ∧ cur.getD 0 = 0)) (hbyte : ¬255 < (cur.getD 0).toNat * 10 + (ch.toNat - 48)) :
    octetText (some (UInt8.ofNat ((cur.getD 0).toNat * 10 + (ch.toNat - 48)))) = octetText cur ++ [ch] := by
  obtain ⟨d, hd, hvalue, rfl⟩ := digit_range hch
  rw [hvalue] at hbyte ⊢
  rw [octetText, UInt8.toNat_ofNat', Nat.mod_eq_of_lt (by omega)]
  cases cur with
  | none =>
    change decimal (0 * 10 + d) = [UInt8.ofNat (48 + d)]
    rw [decimal, if_pos (by omega), Nat.zero_mul, Nat.zero_add]
  | some b =>
    have hb : b.toNat ≠ 0 := fun h => hzero ⟨rfl, UInt8.toNat_inj.mp h⟩
    exact decimal_digit hb hd

theorem octets_digit {n : ℕ} {cur : Option UInt8} {ch : UInt8} {s bytes : List UInt8} (hch : isDigit ch = true)
    (h : Octets n (octetText cur ++ ch :: s) bytes) :
    ¬(cur.isSome = true ∧ cur.getD 0 = 0) ∧ ¬255 < (cur.getD 0).toNat * 10 + (ch.toNat - 48) := by
  obtain ⟨d, hd, hvalue, hchar⟩ := digit_range hch
  obtain ⟨a, ha⟩ := octets_start h
  rw [List.takeWhile_append_of_pos (isDigit_octetText cur), List.takeWhile_cons_of_pos hch] at ha
  have hlt : a.toNat < 256 := a.toNat_lt
  rw [hvalue]
  cases cur with
  | none => exact ⟨nofun, show ¬255 < 0 * 10 + d by omega⟩
  | some b =>
    have hb : b.toNat ≠ 0 := by
      intro hzero
      rw [octetText, hzero, decimal, if_pos (by decide)] at ha
      exact absurd (decimal_zero_start ha.symm) (List.cons_ne_nil _ _)
    refine ⟨fun hzero => hb (congrArg UInt8.toNat hzero.2), ?_⟩
    have hnew : decimal a.toNat = decimal (b.toNat * 10 + d) ++ s.takeWhile isDigit := by
      rw [decimal_digit hb hd, ← hchar, List.append_assoc, ← ha]
      rfl
    have hle := le_of_decimal_append hnew
    change ¬255 < b.toNat * 10 + d
    omega

theorem take_succ_of_getElem? {tmp : List UInt8} {k : ℕ} {b : UInt8} (h : tmp[k]? = some b) :
    tmp.take (k + 1) = tmp.take k ++ [b] := by
  rw [List.take_add_one, h, Option.toList_some]

/-- The loop reads the octets that are still missing, from the text of the current one on. -/
def ReadsOctets (src tmp : List UInt8) (k : ℕ) (cur : Option UInt8) (bytes : List UInt8) : Prop :=
  ∃ rest, Octets (4 - k) (octetText cur ++ src) rest ∧ bytes = tmp.take k ++ rest

theorem octetText_inj {a b : UInt8} (h : octetText (some b) = decimal a.toNat) : a = b := by
  apply UInt8.toNat_inj.mp
  rw [← ofDigits_decimal a.toNat, ← h, octetText, ofDigits_decimal]

section
variable {src tmp : List UInt8} {k : ℕ} {cur : Option UInt8} {ch : UInt8}

theorem pton4From_nil (hlen : tmp.length = 4) (hk : k < 4) (hcur : tmp[k]? = some (cur.getD 0)) :
    Decides (pton4From [] tmp k (k + cur.toList.length) cur.isSome) (ReadsOctets [] tmp k cur) := by
  have hends : ∀ bytes, ReadsOctets [] tmp k cur bytes ↔
      ∃ rest, (4 - k = 1 ∧ ∃ a : UInt8, octetText cur = decimal a.toNat ∧ rest = [a]) ∧ bytes = tmp.take k ++ rest := by
    intro bytes
    simp only [ReadsOctets, List.append_nil, octets_end (isDigit_octetText cur)]
  rw [pton4From]
  cases cur with
  | none =>
    rw [if_pos (show k + (none : Option UInt8).toList.length < 4 from hk)]
    apply decides_refused
    intro bytes hbytes
    obtain ⟨rest, ⟨-, a, ha, -⟩, -⟩ := (hends bytes).mp hbytes
    exact decimal_ne_nil _ ha.symm
  | some b =>
    by_cases hshort : k + 1 < 4
    · rw [if_pos (show k + (some b).toList.length < 4 from hshort)]
      apply decides_refused
      intro bytes hbytes
      obtain ⟨rest, ⟨hn, -⟩, -⟩ := (hends bytes).mp hbytes
      omega
    · rw [if_neg (show ¬k + (some b).toList.length < 4 from hshort)]
      obtain rfl : k = 3 := by omega
      have hb : tmp[3]? = some b := hcur
      have htmp : tmp.take 3 ++ [b] = tmp := by
        rw [← take_succ_of_getElem? hb, List.take_of_length_le (Nat.le_of_eq hlen)]
      apply decides_value
      intro bytes
      rw [hends]
      constructor
      · rintro ⟨rest, ⟨-, a, ha, rfl⟩, rfl⟩
        rw [octetText_inj ha, htmp]
      · rintro rfl
        exact ⟨[b], ⟨rfl, b, rfl, rfl⟩, htmp.symm⟩

/-- A digit is refused, or the loop goes on with the new value of the octet. -/
theorem pton4From_digit (hlen : tmp.length = 4) (hk : k < 4) (hcur : tmp[k]? = some (cur.getD 0)) (hch : isDigit ch = true) :
    pton4From (ch :: src) tmp k (k + cur.toList.length) cur.isSome =
      if cur.isSome = true ∧ cur.getD 0 = 0 then some none
      else if 255 < (cur.getD 0).toNat * 10 + (ch.toNat - 48) then some none
      else
        let b := UInt8.ofNat ((cur.getD 0).toNat * 10 + (ch.toNat - 48))
        pton4From src (tmp.set k b) k (k + (some b).toList.length) (some b).isSome := by
  rw [pton4From, if_pos hch, hcur, Option.bind_some]
  simp only [store, if_pos (show k < tmp.length by omega), Option.bind_some]
  congr 2
  cases cur with
  | none =>
    have hfits : ¬4 < k + (none : Option UInt8).toList.length + 1 := show ¬4 < k + 1 by omega
    rw [if_neg (show ¬(none : Option UInt8).isSome = true from Bool.false_ne_true), if_neg hfits]
    rfl
  | some old =>
    rw [if_pos (show (some old).isSome = true from rfl)]
    rfl

theorem pton4From_dot {b : UInt8} (hlen : tmp.length = 4) (hk : k + 1 < 4) :
    pton4From (46 :: src) tmp k (k + (some b).toList.length) true =
      pton4From src (tmp.set (k + 1) 0) (k + 1) (k + 1 + (none : Option UInt8).toList.length) false := by
  have hroom : ¬k + (some b).toList.length = 4 := show ¬k + 1 = 4 by omega
  rw [pton4From, if_neg (by decide), if_pos ⟨rfl, rfl⟩, if_neg hroom, store, if_pos (by omega), Option.bind_some]
  rfl

end

theorem pton4From_decides (src : List UInt8) {tmp : List UInt8} {k : ℕ} {cur : Option UInt8} (hlen : tmp.length = 4)
    (hk : k < 4) (hcur : tmp[k]? = some (cur.getD 0)) :
    Decides (pton4From src tmp k (k + cur.toList.length) cur.isSome) (ReadsOctets src tmp k cur) := by
  induction src generalizing tmp k cur with
  | nil => exact pton4From_nil hlen hk hcur
  | cons ch src ih =>
    by_cases hdigit : isDigit ch = true
    · rw [pton4From_digit hlen hk hcur hdigit]
      split_ifs with hzero hbyte
      · apply decides_refused
        rintro bytes ⟨rest, h, -⟩
        exact (octets_digit hdigit h).1 hzero
      · apply decides_refused
        rintro bytes ⟨rest, h, -⟩
        exact (octets_digit hdigit h).2 hbyte
      · have htext := octetText_digit hdigit hzero hbyte
        generalize UInt8.ofNat ((cur.getD 0).toNat * 10 + (ch.toNat - 48)) = b at htext ⊢
        have hset : (tmp.set k b)[k]? = some b := List.getElem?_set_self (by omega)
        refine (@ih (tmp.set k b) k (some b) (by rw [List.length_set, hlen]) hk hset).congr fun bytes => ?_
        rw [ReadsOctets, ReadsOctets, htext, List.append_assoc, List.singleton_append, List.take_set_of_le (Nat.le_refl k)]
    · have hother : isDigit ch = false := Bool.eq_false_iff.mpr hdigit
      obtain ⟨n, hn⟩ : ∃ n, 4 - k = n + 1 := ⟨3 - k, by omega⟩
      by_cases hdot : ch = 46 ∧ cur.isSome = true
      · obtain ⟨rfl, hsome⟩ := hdot
        obtain ⟨b, rfl⟩ := Option.isSome_iff_exists.mp hsome
        have hb : tmp[k]? = some b := hcur
        by_cases hfull : k + 1 = 4
        · rw [pton4From, if_neg hdigit, if_pos ⟨rfl, rfl⟩, if_pos (show k + (some b).toList.length = 4 from hfull)]
          apply decides_refused
          rintro bytes ⟨rest, h, -⟩
          rw [hn, octets_dot (isDigit_octetText _) hother] at h
          obtain ⟨-, a, -, rest', h, -⟩ := h
          obtain rfl : n = 0 := by omega
          cases h
        · rw [Option.isSome_some, pton4From_dot hlen (by omega)]
          have hset : (tmp.set (k + 1) 0)[k + 1]? = some 0 := List.getElem?_set_self (by omega)
          have hnext := @ih (tmp.set (k + 1) 0) (k + 1) none (by rw [List.length_set, hlen]) (by omega) hset
          refine hnext.congr fun bytes => ?_
          simp only [ReadsOctets, hn, octets_dot (isDigit_octetText _) hother, List.take_set_of_le (Nat.le_refl (k + 1)),
            take_succ_of_getElem? hb, show 4 - (k + 1) = n by omega]
          constructor
          · rintro ⟨rest, ⟨-, a, ha, rest', h, rfl⟩, rfl⟩
            rw [octetText_inj ha]
            exact ⟨rest', h, by rw [List.append_assoc, List.singleton_append]⟩
          · rintro ⟨rest, h, rfl⟩
            exact ⟨b :: rest, ⟨trivial, b, rfl, rest, h, rfl⟩, by rw [List.append_assoc, List.singleton_append]⟩
      · rw [pton4From, if_neg hdigit, if_neg hdot]
        apply decides_refused
        rintro bytes ⟨rest, h, -⟩
        rw [hn, octets_dot (isDigit_octetText _) hother] at h
        obtain ⟨rfl, a, ha, -⟩ := h
        cases cur with
        | none => exact decimal_ne_nil _ ha.symm
        | some b => exact hdot ⟨rfl, rfl⟩

theorem inetPton4_decides (s : List UInt8) : Decides (inetPton4 s) (IsIpv4 s) := by
  have hloop := @pton4From_decides s [0, 0, 0, 0] 0 none rfl (by decide) rfl
  refine hloop.congr fun bytes => ?_
  rw [isIpv4_iff]
  constructor
  · exact fun h => ⟨bytes, h, rfl⟩
  · rintro ⟨rest, h, rfl⟩
    exact h

end NbiotXY1100.InetPton
