import NbiotXY1100.AtcParameters
import NbiotXY1100.AtUtils
import Mathlib.Tactic.SplitIfs

/-! # Hexadecimal strings round trip in place

The getter overwrites the digits by their values in the command buffer while it looks for the
delimiter. What stands before the place of the scan is never read again by it, so a value that
equals a delimiter does no harm. -/
namespace NbiotXY1100.HexStrParameter
open AtcParameters

/-- The text of a parameter with these digits. -/
def written (quoted : Bool) (digits : List UInt8) : List UInt8 :=
  if quoted then quotation :: (digits ++ [quotation]) else digits

/-- The digits of the bytes, in capitals or in small letters. -/
def Spells (digits d : List UInt8) : Prop := digits = hexToAsc d ∨ digits = (hexToAsc d).map AtUtils.toLower

/-- An even number of digits within the limit, bare or between quotation marks. -/
def WellFormed (maxLen : ℕ) (t : List UInt8) : Prop :=
  ∃ quoted digits, t = written quoted digits ∧ (∀ c ∈ digits, (hexValue c).isSome) ∧ digits.length % 2 = 0 ∧
    digits.length ≤ maxLen

/-- The getter succeeds with the bytes, goes on to the place `next` and keeps the text from there on. -/
def ReadsBack (commandBuffer : List UInt8) (offset maxLen : UInt16) (optFlg lastParameter : UInt8) (d : List UInt8)
    (next : ℕ) : Prop :=
  ∃ r, getHexStrParameter commandBuffer offset maxLen optFlg lastParameter = some r ∧ r.ok = true ∧ r.data = d ∧
    r.dataLen.toNat = d.length ∧ r.offset.toNat = next ∧ r.buffer.drop next = commandBuffer.drop next

/-- The getter fails, and the offset stays. -/
def Rejects (commandBuffer : List UInt8) (offset maxLen : UInt16) (optFlg lastParameter : UInt8) : Prop :=
  ∃ r, getHexStrParameter commandBuffer offset maxLen optFlg lastParameter = some r ∧ r.ok = false ∧ r.offset = offset

/-- The place behind the parameter and its comma. -/
def nextPlace (offset : UInt16) (t : List UInt8) (delim : UInt8) : ℕ :=
  offset.toNat + t.length + if delim = comma then 1 else 0

/-! ### Digits and values -/

def nibbles (d : List UInt8) : List UInt8 := d.flatMap fun (b : UInt8) => [b >>> 4, b &&& 0x0F]

theorem nibble_cases (b : UInt8) :
    (∃ n : Fin 16, b >>> 4 = UInt8.ofNat n.val) ∧ ∃ n : Fin 16, b &&& 0x0F = UInt8.ofNat n.val := by
  have hhigh : (b >>> 4).toNat < 16 := by
    have hlt := b.toNat_lt
    change b.toNat >>> 4 < 16
    rw [Nat.shiftRight_eq_div_pow]
    omega
  have hlow : (b &&& 0x0F).toNat < 16 := by
    have hle : b.toNat &&& 15 ≤ 15 := Nat.and_le_right
    change b.toNat &&& 15 < 16
    omega
  exact ⟨⟨⟨_, hhigh⟩, UInt8.ofNat_toNat.symm⟩, ⟨⟨_, hlow⟩, UInt8.ofNat_toNat.symm⟩⟩

theorem hexValue_nibbleToAsc (n : Fin 16) : hexValue (nibbleToAsc (UInt8.ofNat n.val)) = some (UInt8.ofNat n.val) ∧
    hexValue (AtUtils.toLower (nibbleToAsc (UInt8.ofNat n.val))) = some (UInt8.ofNat n.val) := by
  revert n
  decide

theorem joinNibbles (b : UInt8) : (b >>> 4) * 16 + (b &&& 0x0F) = b := by
  apply UInt8.toNat_inj.mp
  have hhigh : (b >>> 4).toNat = b.toNat / 16 := Nat.shiftRight_eq_div_pow b.toNat 4
  have hlow : (b &&& 0x0F).toNat = b.toNat % 16 := Nat.and_two_pow_sub_one_eq_mod b.toNat 4
  have hlt := b.toNat_lt
  rw [UInt8.toNat_add, UInt8.toNat_mul, hhigh, hlow]
  change (b.toNat / 16 * 16 % 256 + b.toNat % 16) % 256 = b.toNat
  omega

theorem spells_values {digits d : List UInt8} (h : Spells digits d) : digits.map hexValue = (nibbles d).map some := by
  have hbyte : ∀ b : UInt8, hexValue (nibbleToAsc (b >>> 4)) = some (b >>> 4) ∧
      hexValue (AtUtils.toLower (nibbleToAsc (b >>> 4))) = some (b >>> 4) ∧
      hexValue (nibbleToAsc (b &&& 0x0F)) = some (b &&& 0x0F) ∧
      hexValue (AtUtils.toLower (nibbleToAsc (b &&& 0x0F))) = some (b &&& 0x0F) := by
    intro b
    obtain ⟨⟨n, hn⟩, ⟨m, hm⟩⟩ := nibble_cases b
    rw [hn, hm]
    exact ⟨(hexValue_nibbleToAsc n).1, (hexValue_nibbleToAsc n).2, hexValue_nibbleToAsc m⟩
  rcases h with rfl | rfl
  · induction d with
    | nil => rfl
    | cons b d ih =>
      obtain ⟨h1, -, h2, -⟩ := hbyte b
      simpa [hexToAsc, nibbles, h1, h2] using ih
  · induction d with
    | nil => rfl
    | cons b d ih =>
      obtain ⟨-, h1, -, h2⟩ := hbyte b
      simpa [hexToAsc, nibbles, h1, h2] using ih

theorem nibbles_length (d : List UInt8) : (nibbles d).length = 2 * d.length := by
  induction d with
  | nil => rfl
  | cons b d ih =>
    have hcons : nibbles (b :: d) = (b >>> 4) :: (b &&& 0x0F) :: nibbles d := rfl
    rw [hcons, List.length_cons, List.length_cons, List.length_cons, ih]
    omega

theorem packDigits_nibbles (d t : List UInt8) : packDigits (nibbles d ++ t) d.length = d := by
  induction d with
  | nil => rfl
  | cons b d ih =>
    have hcons : nibbles (b :: d) ++ t = (b >>> 4) :: (b &&& 0x0F) :: (nibbles d ++ t) := rfl
    rw [packDigits, List.length_cons, List.range_succ_eq_map, List.map_cons, List.map_map, hcons]
    congr 1
    · exact joinNibbles b

/-! ### The two loops -/

theorem set_append_cons {α : Type*} (pre t : List α) (x y : α) : (pre ++ x :: t).set pre.length y = pre ++ y :: t := by
  rw [List.set_append_right _ _ (Nat.le_refl _), Nat.sub_self]
  rfl

theorem moveQuoted_closed (pre : List UInt8) {w : List UInt8} (x y : UInt8) (rest : List UInt8)
    (hw : ∀ c ∈ w, c ≠ quotation ∧ c ≠ comma ∧ c ≠ cr) :
    moveQuoted (pre ++ x :: (w ++ quotation :: y :: rest)) (pre.length + 1) =
      some (true, pre ++ (w ++ y :: quotation :: y :: rest)) := by
  induction w generalizing pre x with
  | nil =>
    rw [moveQuoted]
    split
    next h => simp at h
    next c h =>
      obtain rfl : quotation = c := by simpa using h
      have hnext : (pre ++ x :: ([] ++ quotation :: y :: rest))[pre.length + 1 + 1]? = some y := by
        rw [List.getElem?_append_right (by omega)]
        simp [Nat.add_assoc]
      rw [if_pos rfl, hnext, Nat.add_sub_cancel, Option.map_some, set_append_cons]
      rfl
  | cons d w ih =>
    obtain ⟨⟨hq, hdelim⟩, hw⟩ := List.forall_mem_cons.mp hw
    rw [moveQuoted]
    split
    next h => simp at h
    next c h =>
      obtain rfl : d = c := by simpa using h
      rw [if_neg hq, if_neg (not_or.mpr hdelim), Nat.add_sub_cancel, set_append_cons]
      have hrec := ih (pre ++ [d]) d hw
      rw [List.length_append, List.length_singleton, List.append_assoc, List.append_assoc] at hrec
      exact hrec

theorem moveQuoted_unclosed (pre : List UInt8) {w : List UInt8} (x : UInt8) {delim : UInt8} (rest : List UInt8)
    (hw : ∀ c ∈ w, c ≠ quotation ∧ c ≠ comma ∧ c ≠ cr) (hdelim : delim = comma ∨ delim = cr) :
    ∃ s, moveQuoted (pre ++ x :: (w ++ delim :: rest)) (pre.length + 1) = some (false, s) := by
  induction w generalizing pre x with
  | nil =>
    refine ⟨pre ++ x :: delim :: rest, ?_⟩
    rw [moveQuoted]
    split
    next h => simp at h
    next c h =>
      obtain rfl : delim = c := by simpa using h
      have hq : delim ≠ quotation := by rcases hdelim with rfl | rfl <;> decide
      rw [if_neg hq, if_pos hdelim]
      rfl
  | cons d w ih =>
    obtain ⟨⟨hq, hno⟩, hw⟩ := List.forall_mem_cons.mp hw
    obtain ⟨s, hs⟩ := ih (pre ++ [d]) d hw
    refine ⟨s, ?_⟩
    rw [moveQuoted]
    split
    next h => simp at h
    next c h =>
      obtain rfl : d = c := by simpa using h
      rw [if_neg hq, if_neg (not_or.mpr hno), Nat.add_sub_cancel, set_append_cons]
      rw [List.length_append, List.length_singleton, List.append_assoc] at hs
      exact hs

theorem convertDigits_digits (pre : List UInt8) {w vs : List UInt8} {delim : UInt8} (rest : List UInt8)
    (hw : w.map hexValue = vs.map some) (hdelim : delim = comma ∨ delim = cr) :
    convertDigits (pre ++ (w ++ delim :: rest)) pre.length =
      some (some (pre.length + w.length), pre ++ (vs ++ delim :: rest)) := by
  induction w generalizing pre vs with
  | nil =>
    obtain rfl : vs = [] := by simpa using hw.symm
    rw [convertDigits]
    split
    next h => simp at h
    next c h =>
      obtain rfl : delim = c := by simpa using h
      rw [if_pos hdelim]
      rfl
  | cons d w ih =>
    obtain ⟨v, vs, rfl⟩ : ∃ v vs', vs = v :: vs' := by
      cases vs with
      | nil => cases hw
      | cons v vs => exact ⟨v, vs, rfl⟩
    obtain ⟨hv, hw⟩ := List.cons.inj hw
    have hno : ¬(d = comma ∨ d = cr) := by
      rintro (rfl | rfl)
      · cases hv
      · cases hv
    rw [convertDigits]
    split
    next h => simp at h
    next c h =>
      obtain rfl : d = c := by simpa using h
      rw [if_neg hno, hv, List.cons_append]
      dsimp only
      rw [set_append_cons]
      have hrec := ih (pre ++ [v]) hw
      rw [List.length_append, List.length_singleton, List.append_assoc, List.append_assoc] at hrec
      rw [List.length_cons, Nat.add_comm w.length, ← Nat.add_assoc]
      exact hrec

/-- Another character before the delimiter stops the loop. -/
theorem convertDigits_other (pre : List UInt8) {t : List UInt8} (rest : List UInt8)
    (ht : ∀ c ∈ t, c ≠ comma ∧ c ≠ cr) (hbad : ∃ c ∈ t, hexValue c = none) :
    ∃ s, convertDigits (pre ++ (t ++ rest)) pre.length = some (none, s) := by
  induction t generalizing pre with
  | nil =>
    obtain ⟨c, hc, -⟩ := hbad
    cases hc
  | cons d t ih =>
    obtain ⟨hno, ht⟩ := List.forall_mem_cons.mp ht
    cases hd : hexValue d with
    | none =>
      refine ⟨pre ++ (d :: t ++ rest), ?_⟩
      rw [convertDigits]
      split
      next h => simp at h
      next c h =>
        obtain rfl : d = c := by simpa using h
        rw [if_neg (not_or.mpr hno), hd]
    | some v =>
      have hbad' : ∃ c ∈ t, hexValue c = none := by
        obtain ⟨c, hc, hnone⟩ := hbad
        rcases List.mem_cons.mp hc with rfl | hc
        · rw [hd] at hnone
          cases hnone
        · exact ⟨c, hc, hnone⟩
      obtain ⟨s, hs⟩ := ih (pre ++ [v]) ht hbad'
      refine ⟨s, ?_⟩
      rw [convertDigits]
      split
      next h => simp at h
      next c h =>
        obtain rfl : d = c := by simpa using h
        rw [if_neg (not_or.mpr hno), hd, List.cons_append]
        dsimp only
        rw [set_append_cons]
        rw [List.length_append, List.length_singleton, List.append_assoc] at hs
        exact hs

/-! ### The check -/

theorem exists_values {w : List UInt8} (h : ∀ c ∈ w, (hexValue c).isSome) :
    ∃ vs : List UInt8, w.map hexValue = vs.map some := by
  induction w with
  | nil => exact ⟨[], rfl⟩
  | cons d w ih =>
    obtain ⟨hd, hw⟩ := List.forall_mem_cons.mp h
    obtain ⟨v, hv⟩ := Option.isSome_iff_exists.mp hd
    obtain ⟨vs, hvs⟩ := ih hw
    exact ⟨v :: vs, by rw [List.map_cons, List.map_cons, hv, hvs]⟩

theorem ne_delim_of_hex {c : UInt8} (h : (hexValue c).isSome) : c ≠ quotation ∧ c ≠ comma ∧ c ≠ cr ∧ c ≠ semicolon := by
  refine ⟨?_, ?_, ?_, ?_⟩
  all_goals
    rintro rfl
    cases h

section
variable {w vs : List UInt8} {delim : UInt8} (rest : List UInt8) (figure : ℕ) (quoted : Bool)

theorem checkDigits_digits (hw : w.map hexValue = vs.map some) (hdelim : delim = comma ∨ delim = cr) {x : UInt8}
    (hget : (vs ++ delim :: rest)[if quoted then w.length + 2 else w.length]? = some x)
    (hlt : (if quoted then w.length + 2 else w.length) < 65536) (hfigure : w.length ≤ figure) (heven : w.length % 2 = 0) :
    checkDigits (w ++ delim :: rest) figure quoted =
      some (some ⟨UInt16.ofNat (if quoted then w.length + 2 else w.length), packDigits (vs ++ delim :: rest) (w.length / 2),
        stopCharOf x, vs ++ delim :: rest⟩, vs ++ delim :: rest) := by
  have hconvert := convertDigits_digits [] rest hw hdelim
  have hbad : ¬(figure < w.length ∨ w.length % 2 ≠ 0) := by omega
  have hlen : (UInt16.ofNat (if quoted then w.length + 2 else w.length)).toNat = if quoted then w.length + 2 else w.length :=
    UInt16.toNat_ofNat_of_lt' hlt
  simp only [List.nil_append, List.length_nil, Nat.zero_add] at hconvert
  rw [checkDigits, hconvert, Option.bind_some]
  simp only [if_neg hbad, hlen, hget, Option.map_some]

theorem checkDigits_count (hw : w.map hexValue = vs.map some) (hdelim : delim = comma ∨ delim = cr)
    (hbad : ¬(w.length % 2 = 0 ∧ w.length ≤ figure)) :
    ∃ s, checkDigits (w ++ delim :: rest) figure quoted = some (none, s) := by
  have hconvert := convertDigits_digits [] rest hw hdelim
  have hcount : figure < w.length ∨ w.length % 2 ≠ 0 := by omega
  simp only [List.nil_append, List.length_nil, Nat.zero_add] at hconvert
  refine ⟨vs ++ delim :: rest, ?_⟩
  rw [checkDigits, hconvert, Option.bind_some]
  simp only [if_pos hcount]

theorem checkDigits_other {t : List UInt8} (ht : ∀ c ∈ t, c ≠ comma ∧ c ≠ cr) (hbad : ∃ c ∈ t, hexValue c = none) :
    ∃ s, checkDigits (t ++ rest) figure quoted = some (none, s) := by
  obtain ⟨s, hs⟩ := convertDigits_other [] rest ht hbad
  refine ⟨s, ?_⟩
  rw [List.nil_append, List.length_nil] at hs
  rw [checkDigits, hs]
  rfl

/-- A text of digits only is refused for their number, any other text for the first other character. -/
theorem checkDigits_refused {t : List UInt8} (ht : ∀ c ∈ t, c ≠ comma ∧ c ≠ cr) (hdelim : delim = comma ∨ delim = cr)
    (hbad : ¬((∀ c ∈ t, (hexValue c).isSome) ∧ t.length % 2 = 0 ∧ t.length ≤ figure)) :
    ∃ s, checkDigits (t ++ delim :: rest) figure quoted = some (none, s) := by
  by_cases hhex : ∀ c ∈ t, (hexValue c).isSome
  · obtain ⟨vs, hvs⟩ := exists_values hhex
    exact checkDigits_count rest figure quoted hvs hdelim fun h => hbad ⟨hhex, h⟩
  · obtain ⟨c, hc, hnone⟩ : ∃ c ∈ t, hexValue c = none := by simpa using hhex
    exact checkDigits_other (delim :: rest) figure quoted ht ⟨c, hc, hnone⟩

end

theorem checkHexStrParameter_bare {c : UInt8} (t : List UInt8) (figure : ℕ) (hcr : c ≠ cr) (hsemi : c ≠ semicolon)
    (hcomma : c ≠ comma) (hquote : c ≠ quotation) :
    checkHexStrParameter (c :: t) figure = checkDigits (c :: t) figure false := by
  rw [checkHexStrParameter, List.getElem?_cons_zero, Option.bind_some, if_neg hcr, if_neg hsemi, if_neg hcomma, if_neg hquote]

theorem checkHexStrParameter_quoted (t : List UInt8) (figure : ℕ) :
    checkHexStrParameter (quotation :: t) figure = (moveQuoted (quotation :: t) 1).bind fun (closed, s) =>
      if closed then checkDigits s figure true else some (none, s) := by
  rw [checkHexStrParameter, List.getElem?_cons_zero, Option.bind_some, if_neg (by decide), if_neg (by decide),
    if_neg (by decide), if_pos rfl]

/-- Any text that is not well-formed is refused. -/
theorem checkHexStrParameter_refused {t : List UInt8} {delim : UInt8} (rest : List UInt8) (figure : ℕ) (hne : t ≠ [])
    (hsemi : t.head? ≠ some semicolon) (ht : ∀ c ∈ t, c ≠ comma ∧ c ≠ cr) (hdelim : delim = comma ∨ delim = cr)
    (hbad : ¬WellFormed figure t) : ∃ s, checkHexStrParameter (t ++ delim :: rest) figure = some (none, s) := by
  obtain ⟨c, t, rfl⟩ := List.exists_cons_of_ne_nil hne
  obtain ⟨⟨hcomma, hcr⟩, ht'⟩ := List.forall_mem_cons.mp ht
  by_cases hquote : c = quotation
  · subst hquote
    rw [List.cons_append, checkHexStrParameter_quoted]
    by_cases hclose : quotation ∈ t
    · obtain ⟨w, u, rfl, hw⟩ := List.eq_append_cons_of_mem hclose
      have hplain : ∀ c ∈ w, c ≠ quotation ∧ c ≠ comma ∧ c ≠ cr := fun c hc =>
        ⟨fun h => hw (h ▸ hc), ht' c (List.mem_append_left _ hc)⟩
      cases u with
      | nil =>
        have hmove := moveQuoted_closed [] quotation delim rest hplain
        have hlast : ¬((∀ c ∈ w, (hexValue c).isSome) ∧ w.length % 2 = 0 ∧ w.length ≤ figure) :=
          fun h => hbad ⟨true, w, rfl, h⟩
        obtain ⟨s, hs⟩ := checkDigits_refused (quotation :: delim :: rest) figure true
          (fun c hc => (hplain c hc).2) hdelim hlast
        refine ⟨s, ?_⟩
        rw [List.nil_append, List.length_nil, Nat.zero_add] at hmove
        rw [List.append_assoc, List.singleton_append, hmove]
        exact hs
      | cons y u =>
        have hmove := moveQuoted_closed [] quotation y (u ++ delim :: rest) hplain
        have hy : y ≠ comma ∧ y ≠ cr := ht' y (by simp)
        have hall : ∀ c ∈ w ++ [y, quotation], c ≠ comma ∧ c ≠ cr := by
          intro c hc
          rcases List.mem_append.mp hc with hc | hc
          · exact (hplain c hc).2
          · rcases List.mem_cons.mp hc with rfl | hc
            · exact hy
            · obtain rfl := List.mem_singleton.mp hc
              decide
        obtain ⟨s, hs⟩ := checkDigits_other (y :: (u ++ delim :: rest)) figure true hall ⟨quotation, by simp, rfl⟩
        refine ⟨s, ?_⟩
        rw [List.nil_append, List.length_nil, Nat.zero_add] at hmove
        rw [List.append_assoc, List.cons_append, List.cons_append, hmove, List.nil_append]
        rw [List.append_assoc] at hs
        exact hs
    · have hplain : ∀ c ∈ t, c ≠ quotation ∧ c ≠ comma ∧ c ≠ cr := fun c hc => ⟨fun h => hclose (h ▸ hc), ht' c hc⟩
      obtain ⟨s, hs⟩ := moveQuoted_unclosed [] quotation rest hplain hdelim
      refine ⟨s, ?_⟩
      rw [List.nil_append, List.length_nil, Nat.zero_add] at hs
      rw [hs]
      rfl
  · rw [List.cons_append, checkHexStrParameter_bare _ _ hcr (fun h => hsemi (by rw [h]; rfl)) hcomma hquote,
      ← List.cons_append]
    exact checkDigits_refused rest figure false ht hdelim fun h => hbad ⟨false, c :: t, rfl, h⟩

theorem hex_of_values {w vs : List UInt8} (h : w.map hexValue = vs.map some) : ∀ c ∈ w, (hexValue c).isSome := by
  intro c hc
  have hmem : hexValue c ∈ vs.map some := h ▸ List.mem_map_of_mem hc
  obtain ⟨v, -, hv⟩ := List.mem_map.mp hmem
  rw [← hv]
  rfl

theorem spells_length {digits d : List UInt8} (h : Spells digits d) : digits.length = 2 * d.length := by
  have hlen := congrArg List.length (spells_values h)
  rwa [List.length_map, List.length_map, nibbles_length] at hlen

theorem written_length (quoted : Bool) (digits : List UInt8) :
    (written quoted digits).length = if quoted then digits.length + 2 else digits.length := by
  cases quoted with
  | false => rfl
  | true => simp [written]

/-- The digits of the bytes are read, and what stands from the delimiter on is kept. -/
theorem checkHexStrParameter_written {digits d : List UInt8} {delim : UInt8} (quoted : Bool) (rest : List UInt8)
    (figure : ℕ) (hspells : Spells digits d) (hdelim : delim = comma ∨ delim = cr) (hfigure : 2 * d.length ≤ figure)
    (hlt : (written quoted digits).length < 65536) :
    ∃ buffer, checkHexStrParameter (written quoted digits ++ delim :: rest) figure =
        some (some ⟨UInt16.ofNat (written quoted digits).length, d, stopCharOf delim, buffer⟩, buffer) ∧
      buffer.drop (written quoted digits).length = delim :: rest := by
  have hvalues := spells_values hspells
  have hlen := spells_length hspells
  have hhalf : digits.length / 2 = d.length := by omega
  have hvlen : (nibbles d).length = digits.length := (nibbles_length d).trans hlen.symm
  rw [written_length] at hlt ⊢
  cases quoted with
  | false =>
    rw [written, if_neg Bool.false_ne_true]
    cases digits with
    | nil =>
      obtain rfl : d = [] := List.eq_nil_of_length_eq_zero hhalf.symm
      refine ⟨delim :: rest, ?_, rfl⟩
      rw [List.nil_append, checkHexStrParameter, List.getElem?_cons_zero, Option.bind_some]
      rcases hdelim with rfl | rfl
      · rfl
      · rfl
    | cons c t =>
      obtain ⟨hquote, hcomma, hcr, hsemi⟩ := ne_delim_of_hex (hex_of_values hvalues c (List.mem_cons_self ..))
      have hget : (nibbles d ++ delim :: rest)[if false then (c :: t).length + 2 else (c :: t).length]? = some delim := by
        rw [if_neg Bool.false_ne_true, ← hvlen, List.getElem?_append_right (Nat.le_refl _), Nat.sub_self]
        rfl
      have hcheck := checkDigits_digits rest figure false hvalues hdelim hget hlt (by omega) (by omega)
      rw [hhalf, packDigits_nibbles] at hcheck
      refine ⟨nibbles d ++ delim :: rest, ?_, ?_⟩
      · rw [List.cons_append, checkHexStrParameter_bare _ _ hcr hsemi hcomma hquote]
        exact hcheck
      · rw [if_neg Bool.false_ne_true, ← hvlen, List.drop_left]
  | true =>
    have hplain : ∀ c ∈ digits, c ≠ quotation ∧ c ≠ comma ∧ c ≠ cr := fun c hc =>
      have h := ne_delim_of_hex (hex_of_values hvalues c hc)
      ⟨h.1, h.2.1, h.2.2.1⟩
    have hmove := moveQuoted_closed [] quotation delim rest hplain
    have hget : (nibbles d ++ delim :: quotation :: delim :: rest)[if true then digits.length + 2 else digits.length]? =
        some delim := by
      rw [if_pos rfl, ← hvlen, List.getElem?_append_right (Nat.le_add_right _ _), Nat.add_sub_cancel_left]
      rfl
    have hcheck := checkDigits_digits (quotation :: delim :: rest) figure true hvalues hdelim hget hlt (by omega) (by omega)
    rw [hhalf, packDigits_nibbles] at hcheck
    refine ⟨nibbles d ++ delim :: quotation :: delim :: rest, ?_, ?_⟩
    · rw [List.nil_append, List.length_nil, Nat.zero_add] at hmove
      rw [written, if_pos rfl, List.cons_append, checkHexStrParameter_quoted, List.append_assoc, List.singleton_append, hmove]
      exact hcheck
    · rw [if_pos rfl, ← hvlen, ← List.drop_drop, List.drop_left]
      rfl

/-! ### The getter -/

section
variable {pre : List UInt8} {offset : UInt16} (hoffset : offset.toNat = pre.length) (maxLen : UInt16)
  (optFlg lastParameter : UInt8)
include hoffset

theorem getHexStrParameter_error {s t : List UInt8} (h : checkHexStrParameter t maxLen.toNat = some (none, s)) :
    Rejects (pre ++ t) offset maxLen optFlg lastParameter := by
  refine ⟨⟨false, offset, 0, [], pre ++ s⟩, ?_, rfl, rfl⟩
  rw [getHexStrParameter, hoffset, List.drop_left, List.take_left, h]
  rfl

/-- The getter on the written digits. -/
theorem readsBack_written {digits d rest : List UInt8} {delim : UInt8} {quoted : Bool} (hspells : Spells digits d)
    (hdelim : delim = comma ∨ delim = cr) (hmax : 2 * d.length ≤ maxLen.toNat)
    (hnext : nextPlace offset (written quoted digits) delim < 65536) (hopt : d ≠ [] ∨ optFlg ≠ 0)
    (hlast : delim = cr ∨ lastParameter ≠ 1) :
    ReadsBack (pre ++ (written quoted digits ++ delim :: rest)) offset maxLen optFlg lastParameter d
      (nextPlace offset (written quoted digits) delim) := by
  have hwritten : (written quoted digits).length < 65536 := by
    unfold nextPlace at hnext
    omega
  obtain ⟨buffer, hcheck, hdrop⟩ := checkHexStrParameter_written quoted rest maxLen.toNat hspells hdelim hmax hwritten
  have hlen := maxLen.toNat_lt
  have hdata : (UInt16.ofNat d.length).toNat = d.length := UInt16.toNat_ofNat_of_lt' (by show d.length < 65536; omega)
  have hempty : ¬(optFlg = 0 ∧ UInt16.ofNat d.length = 0) := by
    rintro ⟨h0, hzero⟩
    have hd : d.length = 0 := by rw [← hdata, hzero]; rfl
    exact hopt.elim (fun hne => hne (List.eq_nil_of_length_eq_zero hd)) fun hne => hne h0
  have hstop : ¬(lastParameter = 1 ∧ stopCharOf delim ≠ .cr) := by
    rintro ⟨h1, hne⟩
    refine hlast.elim (fun hcr => hne (by rw [hcr]; rfl)) fun hno => hno h1
  have hlength : (UInt16.ofNat (written quoted digits).length).toNat = (written quoted digits).length :=
    UInt16.toNat_ofNat_of_lt' hwritten
  refine ⟨⟨true, offset + (if stopCharOf delim = .kanma then UInt16.ofNat (written quoted digits).length + 1
    else UInt16.ofNat (written quoted digits).length), UInt16.ofNat d.length, d, pre ++ buffer⟩, ?_, rfl, rfl, hdata, ?_, ?_⟩
  · rw [getHexStrParameter, hoffset, List.drop_left, List.take_left, hcheck, Option.map_some]
    simp only [if_neg hempty, if_neg hstop]
  · rcases hdelim with rfl | rfl
    · rw [nextPlace, if_pos rfl] at hnext ⊢
      rw [if_pos (by decide), UInt16.toNat_add, UInt16.toNat_add, hlength]
      change (offset.toNat + ((written quoted digits).length + 1) % 65536) % 65536 = _
      omega
    · rw [nextPlace, if_neg (by decide)] at hnext ⊢
      rw [if_neg (by decide), UInt16.toNat_add, hlength]
      change (offset.toNat + (written quoted digits).length) % 65536 = _
      omega
  · have hplace : nextPlace offset (written quoted digits) delim =
        pre.length + ((written quoted digits).length + if delim = comma then 1 else 0) := by
      rw [nextPlace, hoffset, Nat.add_assoc]
    rw [hplace, List.drop_length_add_append, List.drop_length_add_append, ← List.drop_drop, hdrop,
      List.drop_length_add_append]

end

/-- What the getter does with a parameter up to a delimiter, for every flag, limit and text. -/
theorem getHexStrParameter_roundTrip :
    (∀ (pre digits d rest : List UInt8) (quoted : Bool) (delim : UInt8) (offset maxLen : UInt16) (optFlg lastParameter : UInt8),
      Spells digits d → (delim = comma ∨ delim = cr) → 2 * d.length ≤ maxLen.toNat → offset.toNat = pre.length →
      nextPlace offset (written quoted digits) delim < 65536 → (d ≠ [] ∨ optFlg ≠ 0) → (delim = cr ∨ lastParameter ≠ 1) →
        ReadsBack (pre ++ (written quoted digits ++ delim :: rest)) offset maxLen optFlg lastParameter d
          (nextPlace offset (written quoted digits) delim)) ∧
    (∀ (pre t rest : List UInt8) (delim : UInt8) (offset maxLen : UInt16) (optFlg lastParameter : UInt8),
      (∀ c ∈ t, c ≠ comma ∧ c ≠ cr) → (delim = comma ∨ delim = cr) → offset.toNat = pre.length → t ≠ [] →
      t.head? ≠ some semicolon → ¬WellFormed maxLen.toNat t →
        Rejects (pre ++ (t ++ delim :: rest)) offset maxLen optFlg lastParameter) := by
  constructor
  · intro pre digits d rest quoted delim offset maxLen optFlg lastParameter hspells hdelim hmax hoffset hnext hopt hlast
    exact readsBack_written hoffset maxLen optFlg lastParameter hspells hdelim hmax hnext hopt hlast
  · intro pre t rest delim offset maxLen optFlg lastParameter ht hdelim hoffset hne hsemi hbad
    obtain ⟨s, hs⟩ := checkHexStrParameter_refused rest maxLen.toNat hne hsemi ht hdelim hbad
    exact getHexStrParameter_error hoffset maxLen optFlg lastParameter hs

/-- `AT="1d",5` and `AT=1d2`. -/
theorem getHexStrParameter_roundTrip_sample :
    ReadsBack [65, 84, 61, 34, 49, 100, 34, 44, 53, 13] 3 2 0 0 [0x1D] 8 ∧
      Rejects [65, 84, 61, 49, 100, 50, 13] 3 4 0 0 := by
  constructor
  · exact getHexStrParameter_roundTrip.1 [65, 84, 61] [49, 100] [0x1D] [53, 13] true 44 3 2 0 0 (Or.inr (by decide))
      (Or.inl rfl) (by decide) rfl (by decide) (Or.inl (by decide)) (Or.inr (by decide))
  · refine getHexStrParameter_roundTrip.2 [65, 84, 61] [49, 100, 50] [] 13 3 4 0 0 (by decide +kernel) (Or.inr rfl) rfl
      (by decide) (by decide) ?_
    rintro ⟨quoted, digits, ht, -, heven, -⟩
    cases quoted with
    | false =>
      obtain rfl : [49, 100, 50] = digits := ht
      cases heven
    | true => cases ht

/-- The last parameter has to end the command. -/
theorem not_readsBack_last : ¬ReadsBack [49, 50, 44, 53, 13] 0 2 0 1 [0x12] 3 := by
  rintro ⟨r, hr, hok, -⟩
  have hget : getHexStrParameter [49, 50, 44, 53, 13] 0 2 0 1 = some ⟨false, 0, 1, [0x12], [1, 2, 44, 53, 13]⟩ := by
    decide +kernel
  rw [hget] at hr
  cases hr
  cases hok

end NbiotXY1100.HexStrParameter
