import NbiotXY1100.Ipv6Grammar
import Mathlib.Data.List.Induction

/-! # `inet_pton6` reads the grammar

The loop is followed token by token: the variables hold the digits of the current token and the
bytes in front of it. -/
namespace NbiotXY1100.Ipv6Parser
open ByteBuffers CStrings TextParsing InetPton Ipv6Grammar

/-- Sixteen bytes from the ones that were read and the position of `::`. -/
def Filled (w : List UInt8) : Option ℕ → List UInt8 → Prop
  | none, bytes => w.length = 16 ∧ bytes = w
  | some colon, bytes => w.length < 16 ∧ bytes = w.take colon ++ List.replicate (16 - w.length) 0 ++ w.drop colon

/-- The variables in front of `src`, where `tok` is the part of the current token already seen. -/
structure Reading (tok src : List UInt8) (st : Pton6) : Prop where
  digits : ∀ c ∈ tok, isHexDigit c = true
  short : tok.length ≤ 4
  curtok_eq : st.curtok = tok ++ src
  seen_eq : st.xdigitsSeen = tok.length
  val_eq : st.val = hexNumber tok
  room : st.tmp.length = 16
  tp_le : st.tp ≤ 16
  colon_le : ∀ colon, st.colonp = some colon → colon ≤ st.tp

/-- The result for the text from the current token on. -/
def ReadsRest (st : Pton6) (text bytes : List UInt8) : Prop :=
  ∃ rest colonp, Remaining st.colonp st.tp text rest colonp ∧ Filled (st.tmp.take st.tp ++ rest) colonp bytes

/-- What follows the loop. -/
def finished : Option Pton6 → Option (Option (List UInt8))
  | none => some none
  | some st => finishPton6 st

theorem Filled.length_le {w bytes : List UInt8} {colonp : Option ℕ} (h : Filled w colonp bytes) : w.length ≤ 16 := by
  cases colonp with
  | none => exact Nat.le_of_eq h.1
  | some colon => exact Nat.le_of_lt h.1

theorem expandColons_decides {st : Pton6} (hroom : st.tmp.length = 16) (htp : st.tp ≤ 16)
    (hcolon : ∀ colon, st.colonp = some colon → colon ≤ st.tp) :
    Decides (expandColons st) (Filled (st.tmp.take st.tp) st.colonp) := by
  obtain ⟨tmp, tp, colonp, curtok, seen, val⟩ := st
  change tmp.length = 16 at hroom
  change tp ≤ 16 at htp
  have hlen : (tmp.take tp).length = tp := List.length_take_of_le (by rw [hroom]; exact htp)
  rw [expandColons]
  cases colonp with
  | none =>
    by_cases hfull : tp = 16
    · simp only [hfull, ne_eq, not_true_eq_false, if_false]
      have htake : tmp.take 16 = tmp := List.take_of_length_le (Nat.le_of_eq hroom)
      apply decides_value
      intro bytes
      rw [Filled, htake]
      exact and_iff_right hroom
    · simp only [ne_eq, hfull, not_false_eq_true, if_true]
      apply decides_refused
      rintro bytes ⟨h, -⟩
      exact hfull (hlen.symm.trans h)
  | some colon =>
    have hle : colon ≤ tp := hcolon colon rfl
    by_cases hfull : tp = 16
    · simp only [hfull, if_true]
      apply decides_refused
      rintro bytes ⟨h, -⟩
      rw [← hfull, hlen] at h
      omega
    · simp only [hfull, if_false]
      have hout : copyOut tmp colon (tp - colon) = some ((tmp.take tp).drop colon) := by
        rw [copyOut, if_pos (by rw [hroom]; omega), List.drop_take]
      have hmoved : ((tmp.take tp).drop colon).length = tp - colon := by rw [List.length_drop, hlen]
      have hroom' : 16 - (tp - colon) + ((tmp.take tp).drop colon).length ≤ tmp.length := by
        rw [hmoved, hroom]
        omega
      rw [hout, Option.bind_some, copyIn, if_pos hroom', Option.bind_some]
      have hzeros : colon + (List.replicate (16 - (tp - colon) - colon) (0 : UInt8)).length ≤
          (splice tmp (16 - (tp - colon)) ((tmp.take tp).drop colon)).length := by
        rw [splice_length hroom', List.length_replicate, hroom]
        omega
      rw [copyIn, if_pos hzeros, Option.map_some]
      have hvalue : splice (splice tmp (16 - (tp - colon)) ((tmp.take tp).drop colon)) colon
            (List.replicate (16 - (tp - colon) - colon) 0) =
          (tmp.take tp).take colon ++ List.replicate (16 - tp) 0 ++ (tmp.take tp).drop colon := by
        have htake := @splice_take_of_le _ tmp ((tmp.take tp).drop colon) (16 - (tp - colon)) colon (by omega) (by omega)
        have hwindow := @splice_window _ tmp ((tmp.take tp).drop colon) (16 - (tp - colon)) (by omega)
        rw [List.take_of_length_le (by rw [List.length_drop, splice_length hroom', hroom, hmoved]; omega)] at hwindow
        have hcount : 16 - (tp - colon) - colon = 16 - tp := by omega
        have hend : colon + (16 - tp) = 16 - (tp - colon) := by omega
        rw [splice, htake, hcount, List.length_replicate, hend, hwindow, List.take_take, Nat.min_eq_left hle]
      apply decides_value
      intro bytes
      rw [Filled, hlen, hvalue]
      exact and_iff_right (by omega)

theorem group_iff {t bytes : List UInt8} (ht : ∀ c ∈ t, isHexDigit c = true) (hlen : t.length ≤ 4) (hne : t ≠ []) :
    Group t bytes ↔ bytes = groupBytes t :=
  ⟨fun h => h.bytes_eq, fun h => ⟨ht, hne, hlen, h⟩⟩

section
variable {tok src : List UInt8} {st : Pton6} {ch : UInt8}

/-- The bytes of the current token behind the ones in front of it. -/
theorem storeGroup_eq (h : Reading tok src st) (htp : st.tp + 2 ≤ 16) :
    ∃ tmp, storeGroup st = some { st with tmp := tmp, tp := st.tp + 2 } ∧ tmp.length = 16 ∧
      tmp.take (st.tp + 2) = st.tmp.take st.tp ++ groupBytes tok := by
  have hroom := h.room
  refine ⟨(st.tmp.set st.tp (UInt8.ofNat (hexNumber tok / 256))).set (st.tp + 1) (UInt8.ofNat (hexNumber tok % 256)), ?_, ?_, ?_⟩
  · have hlow : st.val &&& 0xFF = hexNumber tok % 256 := by rw [h.val_eq, ← Nat.and_two_pow_sub_one_eq_mod _ 8]
    have hhigh : st.val >>> 8 = hexNumber tok / 256 := by rw [h.val_eq, Nat.shiftRight_eq_div_pow]
    rw [storeGroup, store, if_pos (by omega), Option.bind_some, store, if_pos (by rw [List.length_set]; omega),
      Option.map_some, hlow, hhigh]
  · rw [List.length_set, List.length_set, hroom]
  · have hlast : ((st.tmp.set st.tp (UInt8.ofNat (hexNumber tok / 256))).set (st.tp + 1)
        (UInt8.ofNat (hexNumber tok % 256)))[st.tp + 1]? = some (UInt8.ofNat (hexNumber tok % 256)) :=
      List.getElem?_set_self (by rw [List.length_set]; omega)
    have hfirst : (st.tmp.set st.tp (UInt8.ofNat (hexNumber tok / 256)))[st.tp]? =
        some (UInt8.ofNat (hexNumber tok / 256)) :=
      List.getElem?_set_self (by omega)
    rw [take_succ_of_getElem? hlast, List.take_set_of_le (Nat.le_refl _), take_succ_of_getElem? hfirst,
      List.take_set_of_le (Nat.le_refl _), List.append_assoc]
    rfl

/-- Behind the last group. -/
theorem finishPton6_decides (h : Reading tok [] st) (hne : tok = [] → st.colonp.isSome = true) :
    Decides (finishPton6 st) (ReadsRest st tok) := by
  have htake : (st.tmp.take st.tp).length = st.tp := List.length_take_of_le (by rw [h.room]; exact h.tp_le)
  rw [finishPton6, h.seen_eq]
  by_cases htok : tok = []
  · subst htok
    rw [if_neg (show ¬0 < ([] : List UInt8).length from Nat.not_lt_zero 0)]
    refine (expandColons_decides h.room h.tp_le h.colon_le).congr fun bytes => ?_
    simp only [ReadsRest, remaining_end h.digits]
    constructor
    · rintro ⟨rest, colonp, ⟨rfl, ⟨-, rfl, -⟩ | hgroup⟩, hfilled⟩
      · rwa [List.append_nil] at hfilled
      · exact absurd rfl hgroup.pos
    · intro hfilled
      exact ⟨[], _, ⟨rfl, .inl ⟨trivial, rfl, hne rfl⟩⟩, by rwa [List.append_nil]⟩
  · rw [if_pos (List.length_pos_of_ne_nil htok)]
    have hrest : ∀ bytes, ReadsRest st tok bytes ↔ Filled (st.tmp.take st.tp ++ groupBytes tok) st.colonp bytes := by
      intro bytes
      simp only [ReadsRest, remaining_end h.digits, group_iff h.digits h.short htok, htok, false_and, false_or]
      constructor
      · rintro ⟨rest, colonp, ⟨rfl, rfl⟩, hfilled⟩
        exact hfilled
      · exact fun hfilled => ⟨_, _, ⟨rfl, rfl⟩, hfilled⟩
    by_cases hfull : 16 < st.tp + 2
    · rw [if_pos hfull]
      apply decides_refused
      intro bytes hbytes
      have hle := ((hrest bytes).mp hbytes).length_le
      rw [List.length_append, htake] at hle
      exact absurd hfull (Nat.not_lt.mpr hle)
    · rw [if_neg hfull]
      obtain ⟨tmp, hstore, hroom, htmp⟩ := storeGroup_eq h (by omega)
      rw [hstore, Option.bind_some]
      refine (expandColons_decides hroom (show st.tp + 2 ≤ 16 by omega) fun colon hcolon => ?_).congr fun bytes => ?_
      · exact Nat.le_add_right_of_le (h.colon_le colon hcolon)
      · rw [hrest, htmp]

theorem hexNumber_append (t : List UInt8) (c : UInt8) :
    hexNumber (t ++ [c]) = 16 * hexNumber t + (hexDigitValue c).getD 0 := by
  rw [hexNumber, List.foldl_append, ← hexNumber, List.foldl_cons, List.foldl_nil]

theorem hexDigitValue_lt {c : UInt8} {d : ℕ} (h : hexDigitValue c = some d) : d < 16 := by
  simp only [hexDigitValue, UInt8.le_iff_toNat_le] at h
  split_ifs at h with h₁ h₂ h₃
  · obtain ⟨hlo, hhi⟩ : 48 ≤ c.toNat ∧ c.toNat ≤ 57 := h₁
    have := Option.some.inj h
    omega
  · obtain ⟨hlo, hhi⟩ : 97 ≤ c.toNat ∧ c.toNat ≤ 102 := h₂
    have := Option.some.inj h
    omega
  · obtain ⟨hlo, hhi⟩ : 65 ≤ c.toNat ∧ c.toNat ≤ 70 := h₃
    have := Option.some.inj h
    omega

theorem hexNumber_lt (t : List UInt8) : hexNumber t < 16 ^ t.length := by
  induction t using List.reverseRecOn with
  | nil => decide
  | append_singleton t c ih =>
    have hd : (hexDigitValue c).getD 0 < 16 := by
      cases hc : hexDigitValue c with
      | none => decide
      | some d => exact hexDigitValue_lt hc
    rw [hexNumber_append, List.length_append, List.length_singleton, Nat.pow_succ]
    omega

/-- A fifth digit is refused; the number of the token never leaves sixteen bits. -/
theorem pton6From_digit (h : Reading tok (ch :: src) st) (hch : isHexDigit ch = true) (hlen : tok.length ≠ 4) :
    let next := { st with val := hexNumber (tok ++ [ch]), xdigitsSeen := st.xdigitsSeen + 1 }
    pton6From (ch :: src) st = pton6From src next ∧ Reading (tok ++ [ch]) src next := by
  obtain ⟨d, hd⟩ := Option.isSome_iff_exists.mp hch
  have hshort := h.short
  have hdigit := hexDigitValue_lt hd
  have hnew : hexNumber (tok ++ [ch]) = 16 * hexNumber tok + d := by rw [hexNumber_append, hd, Option.getD_some]
  have hval : st.val <<< 4 ||| d = hexNumber (tok ++ [ch]) := by
    rw [h.val_eq, hnew, ← Nat.shiftLeft_add_eq_or_of_lt (show d < 2 ^ 4 from hdigit), Nat.shiftLeft_eq, Nat.mul_comm]
  have hlt : ¬0xFFFF < hexNumber (tok ++ [ch]) := by
    have hbound := hexNumber_lt (tok ++ [ch])
    have hpow : 16 ^ (tok ++ [ch]).length ≤ 16 ^ 4 :=
      Nat.pow_le_pow_right (by decide) (by rw [List.length_append, List.length_singleton]; omega)
    omega
  constructor
  · simp only [pton6From, hd, h.seen_eq, if_neg hlen, hval, if_neg hlt]
  · refine ⟨?_, ?_, ?_, ?_, rfl, h.room, h.tp_le, h.colon_le⟩
    · intro c hc
      obtain hc | hc := List.mem_append.mp hc
      · exact h.digits c hc
      · rw [List.mem_singleton.mp hc, hch]
    · rw [List.length_append, List.length_singleton]
      omega
    · rw [List.append_assoc]
      exact h.curtok_eq
    · rw [List.length_append, List.length_singleton, ← h.seen_eq]

theorem Reading.take_length (h : Reading tok src st) : (st.tmp.take st.tp).length = st.tp :=
  List.length_take_of_le (by rw [h.room]; exact h.tp_le)

/-- Bytes for which there is no room are refused. -/
theorem not_filled (h : Reading tok src st) {rest bytes : List UInt8} {colonp : Option ℕ} (hfull : 16 < st.tp + rest.length) :
    ¬Filled (st.tmp.take st.tp ++ rest) colonp bytes := by
  intro hfilled
  have hle := hfilled.length_le
  rw [List.length_append, h.take_length] at hle
  omega

/-- A colon behind a group: the bytes of the group come before what follows. -/
theorem readsRest_colon (h : Reading tok (58 :: src) st) (htok : tok ≠ []) (bytes : List UInt8) :
    ReadsRest st (tok ++ 58 :: src) bytes ↔ src ≠ [] ∧ ∃ rest colonp,
      Remaining st.colonp (st.tp + 2) src rest colonp ∧ Filled (st.tmp.take st.tp ++ (groupBytes tok ++ rest)) colonp bytes := by
  simp only [ReadsRest, remaining_colon h.digits htok, group_iff h.digits h.short htok]
  constructor
  · rintro ⟨-, colonp, ⟨hsrc, -, rest, rfl, hrest, rfl⟩, hfilled⟩
    exact ⟨hsrc, rest, colonp, hrest, hfilled⟩
  · rintro ⟨hsrc, rest, colonp, hrest, hfilled⟩
    exact ⟨_, colonp, ⟨hsrc, _, rest, rfl, hrest, rfl⟩, hfilled⟩

theorem splice_take_end {bs data : List UInt8} {o : ℕ} (ho : o ≤ bs.length) :
    (splice bs o data).take (o + data.length) = bs.take o ++ data := by
  have hlen : (bs.take o ++ data).length = o + data.length := by rw [List.length_append, List.length_take_of_le ho]
  rw [splice, ← hlen, List.take_left]

/-- The four octets are the last of the address. -/
theorem octets_decides (h : Reading tok (ch :: src) st) (hch : isHexDigit ch = false) (hcolon : ch ≠ 58) :
    Decides ((if ch = 46 ∧ st.tp + 4 ≤ 16 then
        (inetPton4 st.curtok).bind fun quad =>
          match quad with
          | none => some none
          | some bytes =>
            (copyIn st.tmp st.tp bytes).map fun tmp => some { st with tmp := tmp, tp := st.tp + 4, xdigitsSeen := 0 }
      else some none).bind finished) (ReadsRest st (tok ++ ch :: src)) := by
  have hrest : ∀ bytes, ReadsRest st (tok ++ ch :: src) bytes ↔ ∃ octets, ch = 46 ∧ IsIpv4 (tok ++ ch :: src) octets ∧
      Filled (st.tmp.take st.tp ++ octets) st.colonp bytes := by
    intro bytes
    simp only [ReadsRest, remaining_other h.digits hch hcolon]
    constructor
    · rintro ⟨rest, colonp, ⟨hdot, hipv4, rfl⟩, hfilled⟩
      exact ⟨rest, hdot, hipv4, hfilled⟩
    · rintro ⟨rest, hdot, hipv4, hfilled⟩
      exact ⟨rest, _, ⟨hdot, hipv4, rfl⟩, hfilled⟩
  obtain ⟨quad, hquad, hiff⟩ := inetPton4_decides (tok ++ ch :: src)
  split_ifs with hdot
  · rw [h.curtok_eq, hquad, Option.bind_some]
    cases quad with
    | none =>
      apply decides_refused
      intro bytes hbytes
      obtain ⟨octets, -, hipv4, -⟩ := (hrest bytes).mp hbytes
      cases (hiff octets).mpr hipv4
    | some octets =>
      have hipv4 := (hiff octets).mp rfl
      have hlen := (isIpv4_start hipv4).1
      have htp : st.tp + octets.length ≤ st.tmp.length := by rw [hlen, h.room]; exact hdot.2
      have htake := @splice_take_end st.tmp octets st.tp (by rw [h.room]; exact h.tp_le)
      rw [hlen] at htake
      simp only [copyIn, if_pos htp, Option.map_some, Option.bind_some]
      change Decides (finishPton6 _) _
      rw [finishPton6, if_neg (Nat.lt_irrefl 0)]
      have hroom : (splice st.tmp st.tp octets).length = 16 := by rw [splice_length htp, h.room]
      refine (expandColons_decides hroom hdot.2 fun colon hcolon => ?_).congr fun bytes => ?_
      · exact Nat.le_add_right_of_le (h.colon_le colon hcolon)
      · rw [hrest, htake]
        constructor
        · rintro ⟨octets', -, hipv4', hfilled⟩
          rwa [Option.some.inj ((hiff octets').mpr hipv4')]
        · exact fun hfilled => ⟨octets, hdot.1, hipv4, hfilled⟩
  · apply decides_refused
    intro bytes hbytes
    obtain ⟨octets, h46, hipv4, hfilled⟩ := (hrest bytes).mp hbytes
    refine not_filled h ?_ hfilled
    rw [(isIpv4_start hipv4).1]
    exact Nat.lt_of_not_le fun hle => hdot ⟨h46, hle⟩

end

theorem pton6From_decides (src : List UInt8) {tok : List UInt8} {st : Pton6} (h : Reading tok src st)
    (hne : tok = [] → src = [] → st.colonp.isSome = true) :
    Decides ((pton6From src st).bind finished) (ReadsRest st (tok ++ src)) := by
  induction src generalizing tok st with
  | nil =>
    rw [List.append_nil]
    exact finishPton6_decides h fun htok => hne htok rfl
  | cons ch src ih =>
    by_cases hhex : isHexDigit ch = true
    · by_cases hlen : tok.length = 4
      · obtain ⟨d, hd⟩ := Option.isSome_iff_exists.mp hhex
        have hrefused : pton6From (ch :: src) st = some none := by
          simp only [pton6From, hd, h.seen_eq, hlen, if_true]
        rw [hrefused]
        apply decides_refused
        rintro bytes ⟨rest, colonp, hrest, -⟩
        exact not_remaining_long h.digits hlen hhex hrest
      · obtain ⟨hstep, hnext⟩ := pton6From_digit h hhex hlen
        rw [hstep]
        refine (ih hnext fun htok => absurd htok (List.append_ne_nil_of_right_ne_nil _ (List.cons_ne_nil _ _))).congr fun bytes => ?_
        rw [List.append_assoc]
        exact Iff.rfl
    · have hother : isHexDigit ch = false := Bool.eq_false_iff.mpr hhex
      have hnone : hexDigitValue ch = none := Option.not_isSome_iff_eq_none.mp hhex
      simp only [pton6From, hnone]
      by_cases hcolon : ch = 58
      · subst hcolon
        rw [if_pos rfl]
        by_cases htok : tok = []
        · subst htok
          rw [if_pos (show st.xdigitsSeen = 0 from h.seen_eq)]
          by_cases hseen : st.colonp.isSome = true
          · rw [if_pos hseen]
            apply decides_refused
            rintro bytes ⟨rest, colonp, hrest, -⟩
            rw [(remaining_colons.mp hrest).1] at hseen
            cases hseen
          · rw [if_neg hseen]
            have hnext : Reading [] src { st with curtok := src, colonp := some st.tp } :=
              ⟨nofun, Nat.zero_le _, rfl, h.seen_eq, h.val_eq, h.room, h.tp_le, fun colon hc => (Option.some.inj hc) ▸ Nat.le_refl _⟩
            refine (ih hnext fun _ _ => rfl).congr fun bytes => ?_
            simp only [ReadsRest, List.nil_append, remaining_colons, Option.not_isSome_iff_eq_none.mp hseen, true_and]
        · have hseen : ¬st.xdigitsSeen = 0 := by
            rw [h.seen_eq]
            exact fun hzero => htok (List.length_eq_zero_iff.mp hzero)
          rw [if_neg hseen]
          have hrest := readsRest_colon h htok
          split_ifs with hsrc hfull
          · apply decides_refused
            exact fun bytes hbytes => ((hrest bytes).mp hbytes).1 hsrc
          · apply decides_refused
            intro bytes hbytes
            obtain ⟨-, rest, colonp, -, hfilled⟩ := (hrest bytes).mp hbytes
            refine not_filled h ?_ hfilled
            rw [List.length_append]
            exact Nat.lt_of_lt_of_le hfull (Nat.add_le_add_left (Nat.le_add_right 2 _) _)
          · obtain ⟨tmp, hstore, hroom, htmp⟩ := storeGroup_eq h (by omega)
            rw [hstore, Option.bind_some]
            have hnext : Reading [] src { st with tmp := tmp, tp := st.tp + 2, curtok := src, xdigitsSeen := 0, val := 0 } :=
              ⟨nofun, Nat.zero_le _, rfl, rfl, rfl, hroom, show st.tp + 2 ≤ 16 by omega,
                fun colon hc => Nat.le_add_right_of_le (h.colon_le colon hc)⟩
            refine (ih hnext fun _ hnil => absurd hnil hsrc).congr fun bytes => ?_
            rw [hrest, ReadsRest, htmp]
            simp only [List.append_assoc, List.nil_append]
            exact and_iff_right hsrc
      · rw [if_neg hcolon]
        exact octets_decides h hother hcolon

/-! ### The address -/

theorem filled_append (left right bytes : List UInt8) :
    Filled (left ++ right) (some left.length) bytes ↔ left.length + right.length < 16 ∧
      bytes = left ++ List.replicate (16 - left.length - right.length) 0 ++ right := by
  rw [Filled, List.length_append, List.take_left, List.drop_left, Nat.sub_sub]

/-- The address of a text that the loop reads from its start. -/
def ReadsAll (src bytes : List UInt8) : Prop :=
  ∃ rest colonp, Remaining none 0 src rest colonp ∧ Filled rest colonp bytes

theorem pton6Text_decides {src : List UInt8} (hsrc : src ≠ []) : Decides (pton6Text src) (ReadsAll src) := by
  have hstart : Reading [] src ⟨List.replicate 16 0, 0, none, src, 0, 0⟩ :=
    ⟨nofun, Nat.zero_le _, rfl, rfl, rfl, rfl, Nat.zero_le _, nofun⟩
  exact pton6From_decides src hstart fun _ hnil => absurd hnil hsrc

theorem ipv6Text_gap {l r left right bytes : List UInt8} (hl : GroupsOrNone false l left) (hr : GroupsOrNone true r right)
    (h : Filled (left ++ right) (some left.length) bytes) : Ipv6Text (l ++ 58 :: 58 :: r) bytes := by
  obtain ⟨hlen, rfl⟩ := (filled_append left right bytes).mp h
  have hleft := hl.even
  have hright := hr.even
  exact .compressed hl hr (by omega)

theorem ipv6Text_colons (r bytes : List UInt8) : Ipv6Text (58 :: 58 :: r) bytes ↔ ReadsAll (58 :: r) bytes := by
  constructor
  · generalize hu : 58 :: 58 :: r = u
    intro h
    cases h with
    | full h hlen => exact absurd (hu ▸ h) not_groups_colon
    | @compressed l r' left right hl hr hlen =>
      obtain ⟨rfl, rfl⟩ | hl := hl
      · obtain ⟨-, hu⟩ := List.cons.inj hu
        obtain ⟨-, rfl⟩ := List.cons.inj hu
        exact ⟨right, some 0, .colons 0 hr, (filled_append [] right _).mpr ⟨Nat.lt_of_le_of_lt hlen (by decide), rfl⟩⟩
      · cases l with
        | nil => exact absurd hl groups_ne_nil
        | cons c l =>
          obtain ⟨rfl, -⟩ := List.cons.inj hu
          exact absurd hl not_groups_colon
  · rintro ⟨rest, colonp, hrest, hfilled⟩
    obtain ⟨-, hrest⟩ := remaining_colons.mp hrest
    cases hrest with
    | done => exact ipv6Text_gap (.inl ⟨rfl, rfl⟩) (.inl ⟨rfl, rfl⟩) hfilled
    | groups _ _ h => exact ipv6Text_gap (.inl ⟨rfl, rfl⟩) (.inr h) hfilled

theorem ipv6Text_iff {src bytes : List UInt8} (hhead : src.head? ≠ some 58) : Ipv6Text src bytes ↔ ReadsAll src bytes := by
  constructor
  · intro h
    cases h with
    | full h hlen => exact ⟨bytes, none, .groups none 0 h, hlen, rfl⟩
    | @compressed l r left right hl hr hlen =>
      obtain ⟨rfl, rfl⟩ | hl := hl
      · exact absurd rfl hhead
      · have hgap := Remaining.gap 0 hl hr
        rw [Nat.zero_add] at hgap
        exact ⟨_, _, hgap, (filled_append left right _).mpr ⟨Nat.lt_of_le_of_lt hlen (by decide), rfl⟩⟩
  · rintro ⟨rest, colonp, hrest, hfilled⟩
    cases hrest with
    | groups _ _ h =>
      obtain ⟨hlen, rfl⟩ := hfilled
      exact .full h hlen
    | gap _ hl hr =>
      rw [Nat.zero_add] at hfilled
      exact ipv6Text_gap (.inr hl) hr hfilled
    | colons => exact absurd rfl hhead

theorem not_ipv6Text_colon {c bytes : List UInt8} (hc : c.head? ≠ some 58) : ¬Ipv6Text (58 :: c) bytes := by
  generalize hu : 58 :: c = u
  intro h
  cases h with
  | full h hlen => exact not_groups_colon (hu ▸ h)
  | @compressed l r left right hl hr hlen =>
    obtain ⟨rfl, rfl⟩ | hl := hl
    · obtain ⟨-, rfl⟩ := List.cons.inj hu
      exact hc rfl
    · cases l with
      | nil => exact groups_ne_nil hl
      | cons d l =>
        obtain ⟨rfl, -⟩ := List.cons.inj hu
        exact not_groups_colon hl

theorem inetPton6_decides (s : List UInt8) : Decides (inetPton6 s) (Ipv6Text s) := by
  cases s with
  | nil =>
    apply decides_refused
    intro bytes h
    rw [ipv6Text_iff (by simp)] at h
    obtain ⟨rest, colonp, hrest, -⟩ := h
    have hnil : ∀ c ∈ ([] : List UInt8), isHexDigit c = true := nofun
    obtain ⟨-, h | h⟩ := (remaining_end hnil).mp hrest
    · cases h.2.2
    · exact h.pos rfl
  | cons ch rest =>
    rw [inetPton6]
    by_cases hcolon : ch = 58
    · subst hcolon
      rw [if_pos rfl]
      by_cases htwo : rest.head? = some 58
      · rw [if_pos htwo]
        obtain ⟨r, rfl⟩ := List.head?_eq_some_iff.mp htwo
        exact (pton6Text_decides (List.cons_ne_nil _ _)).congr (ipv6Text_colons r)
      · rw [if_neg htwo]
        exact decides_refused fun bytes => not_ipv6Text_colon htwo
    · rw [if_neg hcolon]
      refine (pton6Text_decides (List.cons_ne_nil _ _)).congr fun bytes => ipv6Text_iff ?_
      exact fun h => hcolon (Option.some.inj h)

theorem isIpv4_length {s bytes : List UInt8} (h : IsIpv4 s bytes) : s ≠ [] ∧ s.length < inetAddrstrlen := by
  have hoctet : ∀ a : UInt8, (decimal a.toNat).length ≤ 2 + 1 := fun a =>
    decimal_length_le 2 (Nat.lt_trans a.toNat_lt (by decide))
  obtain ⟨a, b, c, d, rfl, -⟩ := h
  refine ⟨List.append_ne_nil_of_left_ne_nil (decimal_ne_nil _) _, ?_⟩
  have ha := hoctet a
  have hb := hoctet b
  have hc := hoctet c
  have hd := hoctet d
  simp only [List.length_append, List.length_cons, inetAddrstrlen]
  omega

theorem checked_iff {x : Option (Option (List UInt8))} {P : List UInt8 → Prop} (h : Decides x P) :
    (x.map fun r => if r.isSome then xyOk else xyErr) = some xyOk ↔ ∃ bytes, P bytes := by
  obtain ⟨r, rfl, hiff⟩ := h
  cases r with
  | none => exact iff_of_false (by decide) fun ⟨bytes, hbytes⟩ => nomatch (hiff bytes).mpr hbytes
  | some bytes => exact iff_of_true rfl ⟨bytes, (hiff bytes).mp rfl⟩

theorem xyIpaddrCheck_ipv4 (s : List UInt8) : xyIpaddrCheck (some s) ipv4Type = some xyOk ↔ ∃ bytes, IsIpv4 s bytes := by
  rw [xyIpaddrCheck]
  split_ifs with hempty htype hlong hlong6 h4
  · refine iff_of_false (by decide) fun ⟨bytes, h⟩ => ?_
    exact (isIpv4_length h).1 (List.length_eq_zero_iff.mp hempty)
  · exact absurd rfl htype.1
  · refine iff_of_false (by decide) fun ⟨bytes, h⟩ => ?_
    exact absurd (isIpv4_length h).2 (Nat.not_lt.mpr hlong.2)
  · exact absurd hlong6.1 (by decide)
  · exact checked_iff (inetPton4_decides s)
  · exact absurd rfl h4

theorem xyIpaddrCheck_ipv6 (s : List UInt8) :
    xyIpaddrCheck (some s) ipv6Type = some xyOk ↔ s.length ≤ 45 ∧ ∃ bytes, Ipv6Text s bytes := by
  rw [xyIpaddrCheck]
  split_ifs with hempty htype hlong hlong6 h4
  · refine iff_of_false (by decide) fun ⟨_, bytes, h⟩ => ?_
    rw [List.length_eq_zero_iff.mp hempty] at h
    cases ((inetPton6_decides []).eq_some_iff bytes).mpr h
  · exact absurd rfl htype.2
  · exact absurd hlong.1 (by decide)
  · refine iff_of_false (by decide) fun h => ?_
    exact absurd h.1 (Nat.not_le.mpr hlong6.2)
  · exact absurd h4 (by decide)
  · have hshort : s.length ≤ 45 := Nat.lt_succ_iff.mp (Nat.lt_of_not_le fun hle => hlong6 ⟨rfl, hle⟩)
    rw [checked_iff (inetPton6_decides s), and_iff_right hshort]

theorem xyIpaddrCheck_ne_none (ipaddr : Option (List UInt8)) (iptype : UInt8) : xyIpaddrCheck ipaddr iptype ≠ none := by
  cases ipaddr with
  | none => exact Option.some_ne_none _
  | some s =>
    have h4 := (inetPton4_decides s).ne_none
    have h6 := (inetPton6_decides s).ne_none
    rw [xyIpaddrCheck]
    split_ifs <;> simp [h4, h6]

/-- Exactly the texts of the grammar are valid addresses, and the parsers that check them compute
the bytes they denote without leaving the temporary buffer. -/
theorem xyIpaddrCheck_iff (s : List UInt8) :
    (xyIpaddrCheck (some s) ipv4Type = some xyOk ↔ ∃ bytes, IsIpv4 s bytes) ∧
    (xyIpaddrCheck (some s) ipv6Type = some xyOk ↔ s.length ≤ 45 ∧ ∃ bytes, Ipv6Text s bytes) ∧
    (∀ bytes, inetPton4 s = some (some bytes) ↔ IsIpv4 s bytes) ∧
    (∀ bytes, inetPton6 s = some (some bytes) ↔ Ipv6Text s bytes) ∧
    inetPton4 s ≠ none ∧ inetPton6 s ≠ none ∧ ∀ iptype, xyIpaddrCheck (some s) iptype ≠ none := by
  have h4 := inetPton4_decides s
  have h6 := inetPton6_decides s
  exact ⟨xyIpaddrCheck_ipv4 s, xyIpaddrCheck_ipv6 s, h4.eq_some_iff, h6.eq_some_iff, h4.ne_none, h6.ne_none,
    xyIpaddrCheck_ne_none (some s)⟩

end NbiotXY1100.Ipv6Parser
