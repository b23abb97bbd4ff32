import NbiotXY1100.Ipv6Parser
import Mathlib.Data.Nat.Bitwise

/-! # Printed IPv6 addresses

`AtcAp_OutputAddr_IPv6` of `atc_ps_com.c`: the groups of an address and of its mask, with the
first run of zero groups left out. The variables of the two halves differ by their first index. -/
namespace NbiotXY1100.OutputAddrIpv6
open CStrings InetPton Ipv6Grammar Ipv6Parser TextParsing

/-- The settings of the factory NV that the output depends on, one bit each. -/
structure Ipv6Nv where
  ucIpv6SubnetNotation : Bool
  ucIpv6LeadingZeros : Bool
  ucIpv6CompressZeros : Bool

def upperDigit (d : ℕ) : UInt8 := if d < 10 then UInt8.ofNat (48 + d) else UInt8.ofNat (55 + d)

/-- `n` printed with "%X". -/
def upperHex (n : ℕ) : List UInt8 := if n < 16 then [upperDigit n] else upperHex (n / 16) ++ [upperDigit (n % 16)]
termination_by n
decreasing_by omega

/-- `n` printed with "%04X". -/
def upperHex4 (n : ℕ) : List UInt8 := List.replicate (4 - (upperHex n).length) 48 ++ upperHex n

/-- The variables behind the search for zero groups. -/
structure ZeroScan where
  zeroFlag : ℕ
  start : ℕ
  stop : ℕ
  i : ℕ

def scanZeros (ipv6Addr : List UInt16) (first i zeroFlag start : ℕ) : ZeroScan :=
  if first + 8 ≤ i then ⟨zeroFlag, start, first, i⟩
  else if ipv6Addr.getD i 0 = 0 then
    scanZeros ipv6Addr first (i + 1) (zeroFlag + 1) (if start = first + 8 then i else start)
  else if zeroFlag = 1 then scanZeros ipv6Addr first (i + 1) (zeroFlag - 1) (first + 8)
  else if 1 < zeroFlag then ⟨zeroFlag, start, i - 1, i⟩
  else scanZeros ipv6Addr first (i + 1) zeroFlag start
termination_by first + 8 - i

/-- `start` and `end` for the half of the groups that begins at `first`. -/
def zeroRun (ipv6Addr : List UInt16) (first : ℕ) : ℕ × ℕ :=
  let scan := scanZeros ipv6Addr first first 0 (first + 8)
  (scan.start, if 1 < scan.zeroFlag ∧ scan.stop = first then scan.i - 1 else scan.stop)

/-- The loop that prints a half; the loop counter jumps behind the run. -/
def outputGroups (format : ℕ → List UInt8) (ipv6Addr : List UInt16) (first start stop i : ℕ) : List UInt8 :=
  if first + 8 ≤ i then []
  else if i < start ∨ stop < i then
    (if i = first then format (ipv6Addr.getD i 0).toNat else 58 :: format (ipv6Addr.getD i 0).toNat) ++
      outputGroups format ipv6Addr first start stop (i + 1)
  else if i = start then
    58 :: ((if stop = first + 7 then [58] else []) ++ outputGroups format ipv6Addr first start stop (stop + 1))
  else outputGroups format ipv6Addr first start stop (i + 1)
termination_by first + 8 - i

/-- The bits of a byte, and whether all of them are set. -/
def maskByte (b : UInt8) : List UInt8 → UInt8 → UInt8 × Bool
  | [], maskCidr => (maskCidr, true)
  | j :: js, maskCidr => if b &&& (0x80 >>> j) ≠ 0 then maskByte b js (maskCidr + 1) else (maskCidr, false)

def maskCidrFrom : List UInt8 → UInt8 → UInt8
  | [], maskCidr => maskCidr
  | b :: bytes, maskCidr =>
    match maskByte b [0, 1, 2, 3, 4, 5, 6, 7] maskCidr with
    | (maskCidr, true) => maskCidrFrom bytes maskCidr
    | (maskCidr, false) => maskCidr

def groupsOf : List UInt8 → List UInt16
  | high :: low :: pData => (high.toUInt16 <<< 8 ||| low.toUInt16) :: groupsOf pData
  | _ => []

/-- The text behind the comma, without the quotation marks. There is none when the groups do not
fit `pusIpv6Addr`. -/
def addressText (nv : Ipv6Nv) (pData : List UInt8) : Option (List UInt8) :=
  if 16 < (groupsOf pData).length then none
  else
    let ipv6Addr := groupsOf pData ++ List.replicate (16 - (groupsOf pData).length) 0
    let run := if nv.ucIpv6CompressZeros then zeroRun ipv6Addr 0 else (8, 0)
    let run1 := if nv.ucIpv6CompressZeros ∧ pData.length = 32 then zeroRun ipv6Addr 8 else (16, 8)
    let format := if nv.ucIpv6LeadingZeros then upperHex4 else upperHex
    let address := outputGroups format ipv6Addr 0 run.1 run.2 0
    some (if pData.length = 32 ∧ nv.ucIpv6SubnetNotation then
        address ++ 47 :: decimal (maskCidrFrom ((pData.drop 16).take 16) 0).toNat
      else if pData.length = 32 then address ++ 32 :: outputGroups format ipv6Addr 8 run1.1 run1.2 8
      else address)

/-- The comma in front; quotation marks are left out with `VER_QUECTEL`. -/
def enclosed (verQuectel : Bool) (text : List UInt8) : List UInt8 :=
  if verQuectel then 44 :: text else 44 :: 34 :: (text ++ [34])

/-- What `AtcAp_OutputAddr_IPv6` appends to the response. -/
def outputAddrIpv6 (nv : Ipv6Nv) (verQuectel : Bool) (pData : List UInt8) : Option (List UInt8) :=
  (addressText nv pData).map (enclosed verQuectel)

/-! ### What the text has to say -/

/-- The text is valid and stands for the bytes. -/
def Denotes (text bytes : List UInt8) : Prop :=
  xyIpaddrCheck (some text) ipv6Type = some xyOk ∧ inetPton6 text = some (some bytes)

def Ipv6Address : Type := { bytes : List UInt8 // bytes.length = 16 }

/-- The bits of a byte, the highest first. -/
def bits (b : UInt8) : List Bool := [7, 6, 5, 4, 3, 2, 1, 0].map b.toNat.testBit

def leadingOnes (bytes : List UInt8) : ℕ := ((bytes.flatMap bits).takeWhile id).length

/-! ### The digits of a group -/

theorem hexDigitValue_upperDigit {d : ℕ} (h : d < 16) : hexDigitValue (upperDigit d) = some d := by
  have hall : ∀ d : Fin 16, hexDigitValue (upperDigit d.val) = some d.val := by decide
  exact hall ⟨d, h⟩

theorem isHexDigit_upperDigit {d : ℕ} (h : d < 16) : isHexDigit (upperDigit d) = true := by
  rw [isHexDigit, hexDigitValue_upperDigit h]
  rfl

theorem isHexDigit_upperHex (n : ℕ) : ∀ c ∈ upperHex n, isHexDigit c = true := by
  induction n using upperHex.induct with
  | case1 n h =>
    rw [upperHex, if_pos h]
    simpa using isHexDigit_upperDigit h
  | case2 n h ih =>
    rw [upperHex, if_neg h]
    intro c hc
    obtain hc | hc := List.mem_append.mp hc
    · exact ih c hc
    · rw [List.mem_singleton.mp hc]
      exact isHexDigit_upperDigit (Nat.mod_lt n (by decide))

theorem hexNumber_upperHex (n : ℕ) : hexNumber (upperHex n) = n := by
  induction n using upperHex.induct with
  | case1 n h =>
    rw [upperHex, if_pos h, hexNumber, List.foldl_cons, List.foldl_nil, hexDigitValue_upperDigit h]
    exact Nat.zero_add n
  | case2 n h ih =>
    rw [upperHex, if_neg h, hexNumber_append, ih, hexDigitValue_upperDigit (Nat.mod_lt n (by decide))]
    exact Nat.div_add_mod n 16

theorem upperHex_ne_nil (n : ℕ) : upperHex n ≠ [] := by
  rw [upperHex]
  split_ifs <;> simp

theorem upperHex_length_le {n : ℕ} (k : ℕ) (h : n < 16 ^ (k + 1)) : (upperHex n).length ≤ k + 1 := by
  induction k generalizing n with
  | zero => simp [upperHex, show n < 16 by omega]
  | succ k ih =>
    rw [Nat.pow_succ] at h
    rw [upperHex]
    split_ifs
    · simp
    · have hquotient := ih (show n / 16 < 16 ^ (k + 1) by omega)
      rw [List.length_append, List.length_singleton]
      omega

theorem hexNumber_zeros (k : ℕ) (t : List UInt8) : hexNumber (List.replicate k 48 ++ t) = hexNumber t := by
  induction k with
  | zero => rfl
  | succ k ih => exact ih

def bytesOf (g : ℕ) : List UInt8 := [UInt8.ofNat (g / 256), UInt8.ofNat (g % 256)]

/-- The format prints every group as one to four digits. -/
def Prints (format : ℕ → List UInt8) : Prop := ∀ g, g < 65536 → Group (format g) (bytesOf g)

theorem prints_upperHex : Prints upperHex := fun g hg =>
  ⟨isHexDigit_upperHex g, upperHex_ne_nil g, upperHex_length_le 3 hg, by rw [groupBytes, hexNumber_upperHex, bytesOf]⟩

theorem prints_upperHex4 : Prints upperHex4 := by
  intro g hg
  have hlen := upperHex_length_le 3 hg
  refine ⟨?_, List.append_ne_nil_of_right_ne_nil _ (upperHex_ne_nil g), ?_, ?_⟩
  · intro c hc
    obtain hc | hc := List.mem_append.mp hc
    · rw [List.eq_of_mem_replicate hc]
      rfl
    · exact isHexDigit_upperHex g c hc
  · rw [upperHex4, List.length_append, List.length_replicate]
    omega
  · rw [groupBytes, upperHex4, hexNumber_zeros, hexNumber_upperHex, bytesOf]

/-! ### The run of zero groups -/

section
variable (ipv6Addr : List UInt16) (first : ℕ)

/-- What is known about the groups before `i`. -/
def Scanned (i zeroFlag start : ℕ) : Prop :=
  zeroFlag = 0 ∧ start = first + 8 ∨
    0 < zeroFlag ∧ first ≤ start ∧ start + zeroFlag = i ∧ ∀ k, start ≤ k → k < i → ipv6Addr.getD k 0 = 0

theorem scanZeros_spec {i zeroFlag start : ℕ} (hlo : first ≤ i) (hhi : i ≤ first + 8)
    (h : Scanned ipv6Addr first i zeroFlag start) :
    let scan := scanZeros ipv6Addr first i zeroFlag start
    Scanned ipv6Addr first scan.i scan.zeroFlag scan.start ∧ scan.i ≤ first + 8 ∧
      (scan.stop = first ∧ scan.i = first + 8 ∨ 1 < scan.zeroFlag ∧ scan.stop = scan.i - 1) := by
  induction i, zeroFlag, start using scanZeros.induct ipv6Addr first with
  | case1 i zeroFlag start hend =>
    obtain rfl : i = first + 8 := by omega
    rw [scanZeros, if_pos hend]
    exact ⟨h, Nat.le_refl _, .inl ⟨rfl, rfl⟩⟩
  | case2 i zeroFlag start hend hzero ih =>
    rw [scanZeros, if_neg hend, if_pos hzero]
    apply ih (by omega) (by omega)
    obtain ⟨rfl, rfl⟩ | ⟨hflag, hstart, hi, hzeros⟩ := h
    · rw [dif_pos rfl]
      exact .inr ⟨Nat.one_pos, hlo, rfl, fun k hk hlt => by rwa [show k = i by omega]⟩
    · rw [dif_neg (by omega)]
      refine .inr ⟨Nat.succ_pos _, hstart, by omega, fun k hk hlt => ?_⟩
      obtain hbefore | rfl : k < i ∨ k = i := by omega
      · exact hzeros k hk hbefore
      · exact hzero
  | case3 i start hend hzero ih =>
    rw [scanZeros, if_neg hend, if_neg hzero, if_pos rfl]
    exact ih (by omega) (by omega) (.inl ⟨rfl, rfl⟩)
  | case4 i zeroFlag start hend hzero hone hrun =>
    rw [scanZeros, if_neg hend, if_neg hzero, if_neg hone, if_pos hrun]
    exact ⟨h, hhi, .inr ⟨hrun, rfl⟩⟩
  | case5 i zeroFlag start hend hzero hone hrun ih =>
    rw [scanZeros, if_neg hend, if_neg hzero, if_neg hone, if_neg hrun]
    apply ih (by omega) (by omega)
    obtain hnone | ⟨hflag, -⟩ := h
    · exact .inl hnone
    · omega

/-- No group is left out, or at least two zero groups are. -/
def RunOk (start stop : ℕ) : Prop :=
  (∀ k, first ≤ k → k < first + 8 → k < start ∨ stop < k) ∨
    first ≤ start ∧ start < stop ∧ stop < first + 8 ∧ ∀ k, start ≤ k → k ≤ stop → ipv6Addr.getD k 0 = 0

theorem zeroRun_ok : RunOk ipv6Addr first (zeroRun ipv6Addr first).1 (zeroRun ipv6Addr first).2 := by
  have hspec := scanZeros_spec ipv6Addr first (Nat.le_refl first) (Nat.le_add_right first 8) (.inl ⟨rfl, rfl⟩)
  rw [zeroRun]
  generalize scanZeros ipv6Addr first first 0 (first + 8) = scan at hspec ⊢
  obtain ⟨hscanned, hi, hstop⟩ := hspec
  by_cases hrun : 1 < scan.zeroFlag
  · have hend : (if 1 < scan.zeroFlag ∧ scan.stop = first then scan.i - 1 else scan.stop) = scan.i - 1 := by
      split_ifs with hfirst
      · rfl
      · obtain ⟨hdone, -⟩ | ⟨-, hbreak⟩ := hstop
        · exact absurd ⟨hrun, hdone⟩ hfirst
        · exact hbreak
    obtain ⟨hnone, -⟩ | ⟨-, hstart, hsum, hzeros⟩ := hscanned
    · omega
    · simp only [hend]
      exact .inr ⟨hstart, by omega, by omega, fun k hlo hle => hzeros k hlo (by omega)⟩
  · obtain ⟨hdone, hlast⟩ | ⟨hflag, -⟩ := hstop
    · simp only [hrun, false_and, if_false, hdone]
      refine .inl fun k hlo hlt => ?_
      obtain ⟨-, hstart⟩ | ⟨hflag, -, hsum, -⟩ := hscanned
      · exact .inl (by omega)
      · omega
    · exact absurd hflag hrun

end

/-! ### The printed groups -/

section
variable (format : ℕ → List UInt8) (ipv6Addr : List UInt16)

/-- The groups from `i` on, each behind a colon. -/
def colonText (i n : ℕ) : List UInt8 :=
  (List.range' i n).flatMap fun k => 58 :: format (ipv6Addr.getD k 0).toNat

def rangeBytes (i n : ℕ) : List UInt8 := (List.range' i n).flatMap fun k => bytesOf (ipv6Addr.getD k 0).toNat

theorem colonText_succ (i n : ℕ) :
    colonText format ipv6Addr i (n + 1) = 58 :: (format (ipv6Addr.getD i 0).toNat ++ colonText format ipv6Addr (i + 1) n) := by
  rw [colonText, List.range'_succ, List.flatMap_cons]
  rfl

theorem rangeBytes_succ (i n : ℕ) :
    rangeBytes ipv6Addr i (n + 1) = bytesOf (ipv6Addr.getD i 0).toNat ++ rangeBytes ipv6Addr (i + 1) n := by
  rw [rangeBytes, List.range'_succ, List.flatMap_cons]
  rfl

theorem rangeBytes_append (i n m : ℕ) :
    rangeBytes ipv6Addr i (n + m) = rangeBytes ipv6Addr i n ++ rangeBytes ipv6Addr (i + n) m := by
  rw [rangeBytes, ← List.range'_append_1, List.flatMap_append]
  rfl

theorem rangeBytes_length (i n : ℕ) : (rangeBytes ipv6Addr i n).length = 2 * n := by
  induction n generalizing i with
  | zero => rfl
  | succ n ih =>
    rw [rangeBytes_succ, List.length_append, ih, bytesOf, List.length_cons, List.length_singleton]
    omega

theorem rangeBytes_zeros {i n : ℕ} (h : ∀ k, i ≤ k → k < i + n → ipv6Addr.getD k 0 = 0) :
    rangeBytes ipv6Addr i n = List.replicate (2 * n) 0 := by
  induction n generalizing i with
  | zero => rfl
  | succ n ih =>
    rw [rangeBytes_succ, ih (fun k hlo hlt => h k (by omega) (by omega)), h i (Nat.le_refl i) (by omega)]
    rfl

variable {format}

theorem groups_range (hformat : Prints format) (i n : ℕ) :
    Groups false (format (ipv6Addr.getD i 0).toNat ++ colonText format ipv6Addr (i + 1) n) (rangeBytes ipv6Addr i (n + 1)) := by
  have hgroup : ∀ k, Group (format (ipv6Addr.getD k 0).toNat) (bytesOf (ipv6Addr.getD k 0).toNat) := fun k =>
    hformat _ (ipv6Addr.getD k 0).toNat_lt
  induction n generalizing i with
  | zero =>
    rw [rangeBytes_succ, show colonText format ipv6Addr (i + 1) 0 = [] from rfl, show rangeBytes ipv6Addr (i + 1) 0 = [] from rfl,
      List.append_nil, List.append_nil]
    exact .group (hgroup i)
  | succ n ih =>
    rw [colonText_succ, rangeBytes_succ]
    exact .cons (hgroup i) (ih (i + 1))

variable (format) {first start stop : ℕ}

/-- Behind the first group and the run every group is printed. -/
theorem outputGroups_rest (n : ℕ) {i : ℕ} (hn : i + n = first + 8) (hi : first < i)
    (h : ∀ k, i ≤ k → k < first + 8 → k < start ∨ stop < k) :
    outputGroups format ipv6Addr first start stop i = colonText format ipv6Addr i n := by
  induction n generalizing i with
  | zero =>
    rw [outputGroups, if_pos (by omega)]
    rfl
  | succ n ih =>
    rw [outputGroups, if_neg (by omega), if_pos (h i (Nat.le_refl i) (by omega)), if_neg (by omega),
      ih (by omega) (by omega) (fun k hlo hlt => h k (by omega) hlt), colonText_succ]
    rfl

/-- The run of zero groups and what is printed behind it. -/
def runText (stop last : ℕ) : List UInt8 :=
  58 :: ((if stop = last then [58] else []) ++ colonText format ipv6Addr (stop + 1) (last - stop))

theorem outputGroups_start (hrun : start ≤ stop) (hfirst : first ≤ start) (hstop : stop < first + 8) :
    outputGroups format ipv6Addr first start stop start = runText format ipv6Addr stop (first + 7) := by
  have hrest : outputGroups format ipv6Addr first start stop (stop + 1) =
      colonText format ipv6Addr (stop + 1) (first + 7 - stop) :=
    outputGroups_rest format ipv6Addr _ (by omega) (by omega) fun k hlo _ => .inr hlo
  rw [outputGroups, if_neg (by omega), if_neg (by omega), if_pos rfl, hrest, runText]

theorem outputGroups_run (n : ℕ) {i : ℕ} (hn : i + n = start) (hi : first < i) (hrun : start ≤ stop) (hstop : stop < first + 8) :
    outputGroups format ipv6Addr first start stop i =
      colonText format ipv6Addr i n ++ runText format ipv6Addr stop (first + 7) := by
  induction n generalizing i with
  | zero =>
    obtain rfl : i = start := hn
    exact outputGroups_start format ipv6Addr hrun (by omega) hstop
  | succ n ih =>
    rw [outputGroups, if_neg (by omega), if_pos (.inl (by omega)), if_neg (by omega), ih (by omega) (by omega), colonText_succ]
    simp only [List.cons_append, List.append_assoc]

/-- Two colons, and the groups behind the run, if there are any. -/
theorem runText_eq (hformat : Prints format) (hstop : stop < first + 8) :
    ∃ r, runText format ipv6Addr stop (first + 7) = 58 :: 58 :: r ∧
      GroupsOrNone false r (rangeBytes ipv6Addr (stop + 1) (first + 7 - stop)) := by
  rw [runText]
  by_cases hlast : stop = first + 7
  · subst hlast
    rw [if_pos rfl, Nat.sub_self]
    exact ⟨[], rfl, .inl ⟨rfl, rfl⟩⟩
  · obtain ⟨n, hn⟩ : ∃ n, first + 7 - stop = n + 1 := ⟨first + 6 - stop, by omega⟩
    rw [if_neg hlast, hn, colonText_succ, List.nil_append]
    exact ⟨_, rfl, .inr (groups_range ipv6Addr hformat (stop + 1) n)⟩

end

theorem groups_tail {s bytes : List UInt8} (h : Groups false s bytes) : Groups true s bytes := by
  induction h with
  | group h => exact .group h
  | octets htail h => cases htail
  | cons h hs ih => exact .cons h ih

theorem groups_length {s bytes : List UInt8} (h : Groups false s bytes) : 2 * s.length + 2 ≤ 5 * bytes.length := by
  induction h with
  | group h =>
    have hshort := h.short
    rw [h.length_eq]
    omega
  | octets htail h => cases htail
  | cons h hs ih =>
    have hshort := h.short
    rw [List.length_append, List.length_append, List.length_cons, h.length_eq]
    omega

theorem groupsOrNone_length {s bytes : List UInt8} (h : GroupsOrNone false s bytes) : 2 * s.length ≤ 5 * bytes.length := by
  obtain ⟨rfl, rfl⟩ | h := h
  · exact Nat.le_refl 0
  · have hlen := groups_length h
    omega

theorem denotes_of_text {text bytes : List UInt8} (h : Ipv6Text text bytes) (hlen : text.length ≤ 45) : Denotes text bytes :=
  ⟨(xyIpaddrCheck_ipv6 text).mpr ⟨hlen, bytes, h⟩, ((inetPton6_decides text).eq_some_iff bytes).mpr h⟩

theorem denotes_compressed {l r left right : List UInt8} (hl : GroupsOrNone false l left) (hr : GroupsOrNone false r right)
    (hlen : left.length + right.length ≤ 14) :
    Denotes (l ++ 58 :: 58 :: r) (left ++ List.replicate (16 - left.length - right.length) 0 ++ right) := by
  have hl' := groupsOrNone_length hl
  have hr' := groupsOrNone_length hr
  apply denotes_of_text
  · exact .compressed hl (hr.imp id groups_tail) hlen
  · simp only [List.length_append, List.length_cons]
    omega

theorem outputGroups_denotes {format : ℕ → List UInt8} (hformat : Prints format) {ipv6Addr : List UInt16}
    {first start stop : ℕ} (h : RunOk ipv6Addr first start stop) :
    Denotes (outputGroups format ipv6Addr first start stop first) (rangeBytes ipv6Addr first 8) := by
  obtain hplain | ⟨hfirst, hrun, hstop, hzeros⟩ := h
  · have hgroups := groups_range ipv6Addr hformat first 7
    have htext : outputGroups format ipv6Addr first start stop first =
        format (ipv6Addr.getD first 0).toNat ++ colonText format ipv6Addr (first + 1) 7 := by
      rw [outputGroups, if_neg (by omega), if_pos (hplain first (Nat.le_refl _) (by omega)), if_pos rfl,
        outputGroups_rest format ipv6Addr 7 (by omega) (by omega) fun k hlo hlt => hplain k (by omega) hlt]
    have hlen := groups_length hgroups
    rw [rangeBytes_length] at hlen
    rw [htext]
    exact denotes_of_text (.full (groups_tail hgroups) (rangeBytes_length _ _ _)) (by omega)
  · obtain ⟨r, hr, hright⟩ := runText_eq format ipv6Addr hformat hstop
    have hleft : ∃ l, outputGroups format ipv6Addr first start stop first = l ++ 58 :: 58 :: r ∧
        GroupsOrNone false l (rangeBytes ipv6Addr first (start - first)) := by
      by_cases hstart : start = first
      · subst hstart
        rw [outputGroups_start format ipv6Addr (Nat.le_of_lt hrun) hfirst hstop, hr, Nat.sub_self]
        exact ⟨[], rfl, .inl ⟨rfl, rfl⟩⟩
      · obtain ⟨n, hn⟩ : ∃ n, start - first = n + 1 := ⟨start - first - 1, by omega⟩
        rw [outputGroups, if_neg (by omega), if_pos (.inl (by omega)), if_pos rfl,
          outputGroups_run format ipv6Addr n (by omega) (by omega) (Nat.le_of_lt hrun) hstop, hr, hn, ← List.append_assoc]
        exact ⟨_, rfl, .inr (groups_range ipv6Addr hformat first n)⟩
    obtain ⟨l, htext, hl⟩ := hleft
    have hbytes : rangeBytes ipv6Addr first 8 = rangeBytes ipv6Addr first (start - first) ++
        List.replicate (2 * (stop + 1 - start)) 0 ++ rangeBytes ipv6Addr (stop + 1) (first + 7 - stop) := by
      have hmiddle := @rangeBytes_zeros ipv6Addr start (stop + 1 - start) fun k hlo hlt => hzeros k hlo (by omega)
      have hsplit := rangeBytes_append ipv6Addr first (start - first + (stop + 1 - start)) (first + 7 - stop)
      rw [rangeBytes_append ipv6Addr first (start - first) (stop + 1 - start), show first + (start - first) = start by omega, hmiddle,
        show first + (start - first + (stop + 1 - start)) = stop + 1 by omega,
        show start - first + (stop + 1 - start) + (first + 7 - stop) = 8 by omega] at hsplit
      exact hsplit
    have hcount : 16 - (rangeBytes ipv6Addr first (start - first)).length -
        (rangeBytes ipv6Addr (stop + 1) (first + 7 - stop)).length = 2 * (stop + 1 - start) := by
      rw [rangeBytes_length, rangeBytes_length]
      omega
    rw [htext, hbytes, ← hcount]
    apply denotes_compressed hl hright
    rw [rangeBytes_length, rangeBytes_length]
    omega

/-! ### The groups of the bytes -/

theorem group_toNat (high low : UInt8) : (high.toUInt16 <<< 8 ||| low.toUInt16).toNat = high.toNat * 256 + low.toNat := by
  have hhigh : high.toNat < 256 := high.toNat_lt
  have hlow : low.toNat < 2 ^ 8 := low.toNat_lt
  have hshift : (high.toUInt16 <<< 8).toNat = high.toNat <<< 8 := by
    rw [UInt16.toNat_shiftLeft, UInt8.toNat_toUInt16]
    change high.toNat <<< 8 % 2 ^ 16 = high.toNat <<< 8
    rw [Nat.shiftLeft_eq]
    omega
  rw [UInt16.toNat_or, hshift, UInt8.toNat_toUInt16, ← Nat.shiftLeft_add_eq_or_of_lt hlow, Nat.shiftLeft_eq]

theorem bytesOf_group (high low : UInt8) : bytesOf (high.toUInt16 <<< 8 ||| low.toUInt16).toNat = [high, low] := by
  have hlow : low.toNat < 256 := low.toNat_lt
  rw [group_toNat, bytesOf, show (high.toNat * 256 + low.toNat) / 256 = high.toNat by omega,
    show (high.toNat * 256 + low.toNat) % 256 = low.toNat by omega, UInt8.ofNat_toNat, UInt8.ofNat_toNat]

theorem groupsOf_append {a : List UInt8} (b : List UInt8) {n : ℕ} (ha : a.length = 2 * n) :
    groupsOf (a ++ b) = groupsOf a ++ groupsOf b ∧ (groupsOf a).length = n ∧
      (groupsOf a).flatMap (fun g => bytesOf g.toNat) = a := by
  induction n generalizing a with
  | zero =>
    obtain rfl := List.length_eq_zero_iff.mp ha
    exact ⟨rfl, rfl, rfl⟩
  | succ n ih =>
    match a, ha with
    | high :: low :: a, ha =>
      obtain ⟨happend, hlen, hbytes⟩ := ih (a := a) (by simpa [Nat.mul_succ] using ha)
      refine ⟨?_, ?_, ?_⟩
      · rw [List.cons_append, List.cons_append, groupsOf, happend, groupsOf, List.cons_append]
      · rw [groupsOf, List.length_cons, hlen]
      · rw [groupsOf, List.flatMap_cons, hbytes, bytesOf_group]
        rfl

theorem rangeBytes_append_groups (a gs b : List UInt16) :
    rangeBytes (a ++ gs ++ b) a.length gs.length = gs.flatMap fun g => bytesOf g.toNat := by
  induction gs generalizing a with
  | nil => rfl
  | cons g gs ih =>
    have hget : (a ++ g :: gs ++ b).getD a.length 0 = g := by
      rw [List.append_assoc, List.getD_eq_getElem?_getD, List.getElem?_append_right (Nat.le_refl _), Nat.sub_self]
      rfl
    have hnext := ih (a ++ [g])
    rw [List.append_assoc a [g], List.singleton_append, List.length_append, List.length_singleton] at hnext
    rw [List.length_cons, rangeBytes_succ, hget, hnext, List.flatMap_cons]

/-! ### The mask -/

theorem bit_set (b : UInt8) {j : ℕ} (hj : j < 8) :
    b &&& (0x80 >>> UInt8.ofNat j) ≠ 0 ↔ b.toNat.testBit (7 - j) = true := by
  have hpow : (0x80 >>> UInt8.ofNat j : UInt8).toNat = 2 ^ (7 - j) := by
    have hall : ∀ j : Fin 8, (0x80 >>> UInt8.ofNat j.val : UInt8).toNat = 2 ^ (7 - j.val) := by decide
    exact hall ⟨j, hj⟩
  have hand : (b &&& (0x80 >>> UInt8.ofNat j)).toNat = (b.toNat.testBit (7 - j)).toNat * 2 ^ (7 - j) := by
    rw [UInt8.toNat_and, hpow, Nat.and_two_pow]
  have hpos : 0 < 2 ^ (7 - j) := Nat.two_pow_pos _
  cases hbit : b.toNat.testBit (7 - j) with
  | false =>
    rw [hbit, Bool.toNat_false, Nat.zero_mul] at hand
    exact iff_of_false (fun h => h (UInt8.toNat_inj.mp hand)) Bool.false_ne_true
  | true =>
    rw [hbit, Bool.toNat_true, Nat.one_mul] at hand
    refine iff_of_true (fun h => ?_) rfl
    rw [h] at hand
    exact absurd hand (Nat.ne_of_lt hpos)

theorem maskByte_eq (b : UInt8) (js : List ℕ) (hjs : ∀ j ∈ js, j < 8) (maskCidr : UInt8) :
    maskByte b (js.map UInt8.ofNat) maskCidr =
      let set := js.map fun j => b.toNat.testBit (7 - j)
      (maskCidr + UInt8.ofNat (set.takeWhile id).length, set.all id) := by
  induction js generalizing maskCidr with
  | nil => simp [maskByte]
  | cons j js ih =>
    have hj := bit_set b (hjs j List.mem_cons_self)
    rw [List.map_cons, maskByte]
    by_cases hbit : b.toNat.testBit (7 - j) = true
    · rw [if_pos (hj.mpr hbit), ih fun k hk => hjs k (List.mem_cons_of_mem j hk)]
      simp only [List.map_cons, List.takeWhile_cons, List.all_cons, id_eq, hbit, if_true, List.length_cons, Bool.true_and]
      rw [UInt8.ofNat_add, UInt8.add_assoc, UInt8.add_comm 1]
      rfl
    · rw [if_neg (fun h => hbit (hj.mp h))]
      simp [hbit]

theorem maskCidrFrom_eq (bytes : List UInt8) (maskCidr : UInt8) :
    maskCidrFrom bytes maskCidr = maskCidr + UInt8.ofNat (leadingOnes bytes) := by
  induction bytes generalizing maskCidr with
  | nil => simp [maskCidrFrom, leadingOnes]
  | cons b bytes ih =>
    have hbyte : maskByte b [0, 1, 2, 3, 4, 5, 6, 7] maskCidr =
        (maskCidr + UInt8.ofNat ((bits b).takeWhile id).length, (bits b).all id) :=
      maskByte_eq b [0, 1, 2, 3, 4, 5, 6, 7] (by decide) maskCidr
    rw [maskCidrFrom, hbyte, leadingOnes, List.flatMap_cons]
    by_cases hall : (bits b).all id = true
    · have hset : ∀ x ∈ bits b, id x = true := fun x hx => List.all_eq_true.mp hall x hx
      simp only [hall]
      rw [ih, List.takeWhile_eq_self_iff.mpr hset, List.takeWhile_append_of_pos hset, List.length_append, UInt8.ofNat_add,
        UInt8.add_assoc, leadingOnes]
    · have hshort : ((bits b).takeWhile id).length ≠ (bits b).length := fun hlen => by
        have hself := (List.takeWhile_prefix (l := bits b) id).eq_of_length hlen
        exact hall (List.all_eq_true.mpr (List.takeWhile_eq_self_iff.mp hself))
      rw [Bool.eq_false_iff.mpr hall, List.takeWhile_append, if_neg hshort]

theorem leadingOnes_le (bytes : List UInt8) : leadingOnes bytes ≤ 8 * bytes.length := by
  have hlen : (bytes.flatMap bits).length = 8 * bytes.length := by
    induction bytes with
    | nil => rfl
    | cons b bytes ih =>
      rw [List.flatMap_cons, List.length_append, ih, List.length_cons, bits, List.length_map]
      exact Nat.add_comm 8 _
  rw [← hlen]
  exact (List.takeWhile_prefix id).length_le

theorem mask_toNat (b : Ipv6Address) : (maskCidrFrom b.val 0).toNat = leadingOnes b.val := by
  have hle := leadingOnes_le b.val
  rw [b.property] at hle
  rw [maskCidrFrom_eq, UInt8.zero_add, UInt8.toNat_ofNat', Nat.mod_eq_of_lt (by omega)]

/-! ### The text of an address -/

section
variable (nv : Ipv6Nv) (a b : Ipv6Address)

theorem prints_format : Prints (if nv.ucIpv6LeadingZeros then upperHex4 else upperHex) := by
  split_ifs
  · exact prints_upperHex4
  · exact prints_upperHex

/-- With or without compression the groups of a half are printed. -/
theorem half_denotes {format : ℕ → List UInt8} (hformat : Prints format) (compress : Prop) [Decidable compress]
    (ipv6Addr : List UInt16) (first : ℕ) :
    let run := if compress then zeroRun ipv6Addr first else (first + 8, first)
    Denotes (outputGroups format ipv6Addr first run.1 run.2 first) (rangeBytes ipv6Addr first 8) := by
  apply outputGroups_denotes hformat
  split_ifs
  · exact zeroRun_ok ipv6Addr first
  · exact .inl fun k _ hlt => .inl hlt

theorem addressText_short :
    ∃ t, addressText nv a.val = some t ∧ Denotes t a.val := by
  obtain ⟨-, hlen, hbytes⟩ := @groupsOf_append a.val [] 8 a.property
  have hhalf := half_denotes (prints_format nv) (nv.ucIpv6CompressZeros = true)
    (groupsOf a.val ++ List.replicate (16 - (groupsOf a.val).length) 0) 0
  have hrange := rangeBytes_append_groups [] (groupsOf a.val) (List.replicate (16 - (groupsOf a.val).length) 0)
  rw [hlen, List.length_nil, hbytes, List.nil_append] at hrange
  rw [hlen, hrange] at hhalf
  refine ⟨_, ?_, hhalf⟩
  rw [addressText, hlen, if_neg (by decide)]
  simp [a.property]

theorem addressText_long :
    ∃ t u, addressText nv (a.val ++ b.val) = some (t ++ if nv.ucIpv6SubnetNotation then 47 :: decimal (leadingOnes b.val) else 32 :: u) ∧
      Denotes t a.val ∧ Denotes u b.val := by
  obtain ⟨happend, hlenA, hbytesA⟩ := groupsOf_append b.val (n := 8) a.property
  obtain ⟨-, hlenB, hbytesB⟩ := @groupsOf_append b.val [] 8 b.property
  have hlen : (groupsOf (a.val ++ b.val)).length = 16 := by rw [happend, List.length_append, hlenA, hlenB]
  have hcount : (a.val ++ b.val).length = 32 := by rw [List.length_append, a.property, b.property]
  have hfirst := half_denotes (prints_format nv) (nv.ucIpv6CompressZeros = true) (groupsOf (a.val ++ b.val)) 0
  have hsecond := half_denotes (prints_format nv) (nv.ucIpv6CompressZeros = true ∧ (a.val ++ b.val).length = 32)
    (groupsOf (a.val ++ b.val)) 8
  have hrangeA := rangeBytes_append_groups [] (groupsOf a.val) (groupsOf b.val)
  have hrangeB := rangeBytes_append_groups (groupsOf a.val) (groupsOf b.val) []
  rw [List.length_nil, List.nil_append, hlenA, hbytesA, ← happend] at hrangeA
  rw [List.append_nil, hlenA, hlenB, hbytesB, ← happend] at hrangeB
  rw [hrangeA] at hfirst
  rw [hrangeB] at hsecond
  refine ⟨_, _, ?_, hfirst, hsecond⟩
  have hmask : ((a.val ++ b.val).drop 16).take 16 = b.val := by
    rw [List.drop_left' a.property, List.take_of_length_le (Nat.le_of_eq b.property)]
  rw [addressText, hlen, if_neg (by decide)]
  simp only [Nat.sub_self, List.replicate_zero, List.append_nil, hmask, mask_toNat, hcount, true_and, if_true]
  cases nv.ucIpv6SubnetNotation <;> rfl

end

/-- A printed address stands for the bytes it was printed from, and so does a mask; in subnet
notation the number of leading ones of the mask is printed. -/
theorem outputAddrIpv6_denotes (verQuectel leadingZeros compressZeros : Bool) (a b : Ipv6Address) :
    (∀ subnetNotation, ∃ t,
      outputAddrIpv6 ⟨subnetNotation, leadingZeros, compressZeros⟩ verQuectel a.val = some (enclosed verQuectel t) ∧
        Denotes t a.val) ∧
    (∃ t u,
      outputAddrIpv6 ⟨false, leadingZeros, compressZeros⟩ verQuectel (a.val ++ b.val) =
          some (enclosed verQuectel (t ++ 32 :: u)) ∧
        Denotes t a.val ∧ Denotes u b.val) ∧
    ∃ t,
      outputAddrIpv6 ⟨true, leadingZeros, compressZeros⟩ verQuectel (a.val ++ b.val) =
          some (enclosed verQuectel (t ++ 47 :: decimal (leadingOnes b.val))) ∧
        Denotes t a.val := by
  refine ⟨fun subnetNotation => ?_, ?_, ?_⟩
  · obtain ⟨t, ht, hdenotes⟩ := addressText_short ⟨subnetNotation, leadingZeros, compressZeros⟩ a
    exact ⟨t, by rw [outputAddrIpv6, ht, Option.map_some], hdenotes⟩
  · obtain ⟨t, u, ht, hdenotes⟩ := addressText_long ⟨false, leadingZeros, compressZeros⟩ a b
    exact ⟨t, u, by rw [outputAddrIpv6, ht, Option.map_some]; rfl, hdenotes⟩
  · obtain ⟨t, u, ht, hdenotes⟩ := addressText_long ⟨true, leadingZeros, compressZeros⟩ a b
    exact ⟨t, by rw [outputAddrIpv6, ht, Option.map_some]; rfl, hdenotes.1⟩

end NbiotXY1100.OutputAddrIpv6
