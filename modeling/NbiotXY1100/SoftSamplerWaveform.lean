import NbiotXY1100.SoftSampler

/-! # The waveforms that the soft sampler stays inside its word for

The bits that a waveform gives are counted from its first low level on: the intra-bit counter is
the length of the stretch of equal levels, and a stretch gives a bit at its fourth sample and at
every eighth after that. -/
namespace NbiotXY1100.SoftSampler

variable (table : List (BitVec 8)) (irqs : ℕ → Interrupt)

/-- The pin has been high since interrupt `i`, and low before that. -/
def HighFrom (i m : ℕ) : Prop :=
  (∀ j, j < i → (irqs j).level = false) ∧ ∀ j, i ≤ j → j < m → (irqs j).level = true

/-- The falling edge of the start bit is found in interrupt `n`. -/
def FirstLow (n : ℕ) : Prop :=
  (∃ i < n, HighFrom irqs i n) ∧ (irqs n).level = false

/-- The level before sample `k` from interrupt `n` on; the line has been idle. -/
def lastLevel (n : ℕ) : ℕ → Bool
  | 0 => true
  | k + 1 => (irqs (n + k)).level

/-- The length of the stretch of equal levels that ends with the `k`-th sample. -/
def stretch (n : ℕ) : ℕ → ℕ
  | 0 => 0
  | k + 1 => if (irqs (n + k)).level = lastLevel irqs n k then stretch n k + 1 else 1

/-- The bits of the first `k` samples after the idle bit, the oldest first. -/
def bits (n : ℕ) : ℕ → List Bool
  | 0 => [true]
  | k + 1 =>
    if stretch irqs n (k + 1) % oneBitSampleNum = oneBitSampleNum / 2 then bits n k ++ [(irqs (n + k)).level]
    else bits n k

def charOf (c : List Bool) : BitVec 8 := (BitVec.ofBoolListLE c).setWidth 8

/-- The bits end with an idle bit, a start bit and a character of the table. -/
def KnownChar (word : List Bool) : Prop :=
  ∃ before c, word = before ++ true :: false :: c ∧ c.length = 8 ∧ searchChar (charOf c) table 0 0 ≠ 0

/-- From its first falling edge on the waveform gives no more bits than the word has, and a stop bit
follows, until the first known character or until `maxSampleNum` samples have been taken. -/
def FitsWord : Prop :=
  ∀ n < cspDataBits * oneBitSampleNum, FirstLow irqs n → ∀ k ≤ maxSampleNum + 1,
    (∀ j < k, ¬KnownChar table (bits irqs n j)) →
      (bits irqs n k).length ≤ 32 ∧ (KnownChar table (bits irqs n k) → (irqs (n + k - 1)).stopBit = true)

/-! ### Bits of a word -/

theorem getLsbD_setBit {w : ℕ} (x : BitVec w) {i : ℕ} (j : ℕ) (b : Bool) (hi : i < w) :
    (setBit x i b).getLsbD j = if j = i then b else x.getLsbD j := by
  by_cases hj : j = i
  · subst hj
    cases b <;> simp [setBit, hi]
  · have hne : ¬i = j := fun h => hj h.symm
    cases b
    · by_cases hw : j < w
      · simp [setBit, hj, hw]
      · simp [setBit, hj, BitVec.getLsbD_of_ge x j (by omega)]
    · simp [setBit, hj, hne]

/-- The word holds the bits. -/
def HoldsBits (x : BitVec 32) (word : List Bool) : Prop := ∀ i, x.getLsbD i = word.getD i false

theorem holdsBits_one : HoldsBits 1 [true] := by
  intro i
  cases i with
  | zero => rfl
  | succ i => simp [BitVec.getLsbD_one]

theorem HoldsBits.setBit {x : BitVec 32} {word : List Bool} (h : HoldsBits x word) (b : Bool)
    (hlen : word.length < 32) : HoldsBits (setBit x word.length b) (word ++ [b]) := by
  intro i
  rw [getLsbD_setBit x i b hlen]
  rcases Nat.lt_trichotomy i word.length with hi | rfl | hi
  · rw [if_neg (by omega), h i]
    simp [List.getD, List.getElem?_append_left hi]
  · simp
  · rw [if_neg (by omega), h i]
    have hword : word[i]? = none := List.getElem?_eq_none (by omega)
    have happend : (word ++ [b])[i]? = none := List.getElem?_eq_none (by simp; omega)
    simp [hword, happend]

theorem HoldsBits.drop {x : BitVec 32} {before c : List Bool} (h : HoldsBits x (before ++ c)) :
    (x >>> before.length).setWidth 8 = charOf c := by
  apply BitVec.eq_of_getLsbD_eq
  intro i hi
  simp [charOf, hi, h (before.length + i), BitVec.getLsbD_ofBoolListLE, List.getElem?_append_right]

theorem exists_character {word : List Bool} (h : 10 ≤ word.length) :
    ∃ before idle start c, word = before ++ idle :: start :: c ∧ c.length = 8 := by
  obtain ⟨idle, start, c, hc⟩ : ∃ idle start c, word.drop (word.length - 10) = idle :: start :: c := by
    match hd : word.drop (word.length - 10) with
    | [] | [_] =>
      have := congrArg List.length hd
      simp at this
      omega
    | idle :: start :: c => exact ⟨idle, start, c, rfl⟩
  refine ⟨word.take (word.length - 10), idle, start, c, ?_, ?_⟩
  · rw [← hc, List.take_append_drop]
  · have := congrArg List.length hc
    simp at this
    omega

theorem KnownChar.length_le {word : List Bool} (h : KnownChar table word) : 10 ≤ word.length := by
  obtain ⟨before, c, rfl, hc, -⟩ := h
  simp [hc]

theorem knownChar_append {before c : List Bool} {idle start : Bool} (hc : c.length = 8) :
    KnownChar table (before ++ idle :: start :: c) ↔
      (idle = true ∧ start = false) ∧ searchChar (charOf c) table 0 0 ≠ 0 := by
  constructor
  · rintro ⟨before', c', heq, hc', hid⟩
    obtain ⟨-, htail⟩ := List.append_inj' heq (by simp [hc, hc'])
    cases htail
    exact ⟨⟨rfl, rfl⟩, hid⟩
  · rintro ⟨⟨rfl, rfl⟩, hid⟩
    exact ⟨before, c, rfl, hc, hid⟩

/-- The handler finds a known character where the bits end with one. -/
theorem detectChar_specialId {s : Sampler} {word : List Bool} (hword : HoldsBits s.rcvDat word)
    (hcnt : s.bitNumCnt.toNat = word.length) (hlen : word.length ≤ 32) (hten : 10 ≤ word.length)
    (hid : s.specialId = 0) : (detectChar table s).specialId ≠ 0 ↔ KnownChar table word := by
  obtain ⟨before, idle, start, c, rfl, hc⟩ := exists_character hten
  have hlen' : (before ++ idle :: start :: c).length = before.length + 10 := by simp [hc]
  rw [hlen'] at hcnt hlen
  have hidle : readBit s (s.bitNumCnt.toNat - 10) = idle := by
    rw [hcnt, readBit, if_pos (by omega), hword]
    simp
  have hstart : readBit s (s.bitNumCnt.toNat - 9) = start := by
    rw [hcnt, readBit, if_pos (by omega), hword]
    simp
  have hchar : specialChar s = charOf c := by
    rw [specialChar, hcnt]
    have hdrop : HoldsBits s.rcvDat ((before ++ [idle, start]) ++ c) := by simpa using hword
    simpa using hdrop.drop
  rw [knownChar_append table hc, detectChar, hidle, hstart, hchar, hid]
  split
  · next h => simp [h]
  · next h => simp [h, hid]

/-! ### The sampler on a waveform -/

/-- Before the first falling edge. -/
structure Waiting (m : ℕ) (s : Sampler) : Prop where
  sampleCnt : s.sampleCnt.toNat = m
  startCnt : s.startCnt = 0
  dataCnt : s.dataCnt = 0
  lastLevel : s.lastLevel = true
  endFlag : s.endFlag = false
  specialId : s.specialId = 0
  low : s.startFlag = false → ∀ j < m, (irqs j).level = false
  high : s.startFlag = true → (∃ i < m, HighFrom irqs i m) ∧ s.rcvDat = 1 ∧ s.bitNumCnt = 1

/-- After `k` samples from the falling edge in interrupt `n` on. -/
structure Active (n k : ℕ) (s : Sampler) : Prop where
  startCnt : s.startCnt.toNat = k
  sampleCnt : k = 0 → s.sampleCnt.toNat = n
  dataCnt : s.dataCnt.toNat = stretch irqs n k
  lastLevel : s.lastLevel = SoftSampler.lastLevel irqs n k
  startFlag : s.startFlag = true
  endFlag : s.endFlag = false
  specialId : s.specialId = 0
  bitNumCnt : s.bitNumCnt.toNat = (bits irqs n k).length
  rcvDat : HoldsBits s.rcvDat (bits irqs n k)

theorem stretch_le (n k : ℕ) : stretch irqs n k ≤ k := by
  induction k with
  | zero => exact Nat.le_refl 0
  | succ k ih =>
    rw [stretch]
    split
    · omega
    · omega

variable {irqs} {table} {n k m : ℕ} {s : Sampler}

theorem Waiting.active (h : Waiting irqs m s) (hstart : s.startFlag = true) : Active irqs m 0 s := by
  obtain ⟨-, hrcv, hcnt⟩ := h.high hstart
  exact ⟨by simp [h.startCnt], fun _ => h.sampleCnt, by simp [h.dataCnt, stretch], h.lastLevel, hstart, h.endFlag,
    h.specialId, by simp [hcnt, bits], hrcv ▸ holdsBits_one⟩

theorem highFrom_succ {i : ℕ} (h : HighFrom irqs i m) (hlevel : (irqs m).level = true) : HighFrom irqs i (m + 1) := by
  refine ⟨h.1, fun j hi hj => ?_⟩
  rcases Nat.lt_succ_iff_lt_or_eq.mp hj with hj | rfl
  · exact h.2 j hi hj
  · exact hlevel

/-- The first falling edge is the first low level after a high one. -/
theorem firstLow_level (h : FirstLow irqs n) (hm : m < n) {i : ℕ} (hi : i < m) (hhigh : HighFrom irqs i m) :
    (irqs m).level = true := by
  obtain ⟨⟨i', -, hlow, hhigh'⟩, -⟩ := h
  have hi' : i' ≤ i := by
    by_contra hlt
    have := hlow i (by omega)
    rw [hhigh.2 i (Nat.le_refl i) hi] at this
    cases this
  exact hhigh' m (by omega) hm

/-! ### One interrupt -/

theorem checkEnd_running (hidle : s.startCnt = 0 → s.sampleCnt.toNat ≤ cspDataBits * oneBitSampleNum)
    (hdata : s.startCnt.toNat ≤ maxSampleNum) : checkEnd s = s := by
  have hidle' : ¬(cspDataBits * oneBitSampleNum < s.sampleCnt.toNat ∧ s.startCnt = 0) := by
    rintro ⟨hlt, h0⟩
    exact absurd (hidle h0) (by omega)
  simp only [checkEnd, hidle', if_false, Nat.not_lt.mpr hdata]

theorem checkEnd_ended (h : s.endFlag = true ∨ (cspDataBits * oneBitSampleNum < s.sampleCnt.toNat ∧ s.startCnt = 0) ∨
    maxSampleNum < s.startCnt.toNat) : (checkEnd s).endFlag = true := by
  by_cases hidle : cspDataBits * oneBitSampleNum < s.sampleCnt.toNat ∧ s.startCnt = 0
  · simp only [checkEnd, if_pos hidle]
    split
    · rfl
    · rfl
  · simp only [checkEnd, if_neg hidle]
    split
    · rfl
    · next hdata => exact h.resolve_right (not_or.mpr ⟨hidle, hdata⟩)

theorem sample_ended (level : Bool) (h : (checkEnd (countInterrupt s)).endFlag = true) :
    ∃ t, sample level s = (t, false) ∧ t.endFlag = true := by
  refine ⟨checkEnd (countInterrupt s), ?_, h⟩
  simp only [sample, h, if_true]

theorem sample_running {level : Bool} (hend : checkEnd (countInterrupt s) = countInterrupt s) (h : s.endFlag = false) :
    sample level s =
      if (waitFallingEdge level (countInterrupt s)).startFlag then
        (countSample level (waitFallingEdge level (countInterrupt s)),
          decide ((countSample level (waitFallingEdge level (countInterrupt s))).dataCnt.toNat % oneBitSampleNum =
            oneBitSampleNum / 2))
      else (waitFallingEdge level (countInterrupt s), false) := by
  have h' : (countInterrupt s).endFlag = false := h
  simp only [sample, hend, h', Bool.false_eq_true, if_false]

theorem countInterrupt_sampleCnt (h : s.sampleCnt.toNat = m) (hm : m < 80) :
    (countInterrupt s).sampleCnt.toNat = m + 1 := by
  have hadd : (s.sampleCnt + 1).toNat = (s.sampleCnt.toNat + 1) % 2 ^ 16 := BitVec.toNat_add s.sampleCnt 1
  rw [h, Nat.mod_eq_of_lt (by omega)] at hadd
  exact hadd

theorem waitFallingEdge_low : waitFallingEdge false s = s := rfl

theorem waitFallingEdge_started {level : Bool} (h : s.startFlag = true) : waitFallingEdge level s = s := by
  simp [waitFallingEdge, h]

theorem waitFallingEdge_high (h : s.startFlag = false) :
    waitFallingEdge true s = { s with startFlag := true, rcvDat := 1, bitNumCnt := 1 } := by
  simp [waitFallingEdge, h]

theorem countSample_idle (h : s.startCnt = 0) : countSample true s = s := by
  simp [countSample, h]

theorem Waiting.sample (h : Waiting irqs m s) (hm : m < cspDataBits * oneBitSampleNum)
    (hlevel : s.startFlag = false ∨ (irqs m).level = true) :
    ∃ t, sample (irqs m).level s = (t, false) ∧ Waiting irqs (m + 1) t := by
  have hsucc : (countInterrupt s).sampleCnt.toNat = m + 1 := countInterrupt_sampleCnt h.sampleCnt hm
  have hstartCnt : (countInterrupt s).startCnt = 0 := h.startCnt
  have hdataCnt : (countInterrupt s).dataCnt = 0 := h.dataCnt
  have hend : checkEnd (countInterrupt s) = countInterrupt s := by
    apply checkEnd_running
    · intro _
      rw [hsucc]
      exact hm
    · rw [hstartCnt]
      exact Nat.zero_le _
  rw [sample_running hend h.endFlag]
  cases hstart : s.startFlag with
  | false =>
    have hstart' : (countInterrupt s).startFlag = false := hstart
    cases hl : (irqs m).level with
    | false =>
      rw [waitFallingEdge_low, hstart']
      refine ⟨_, rfl, hsucc, hstartCnt, hdataCnt, h.lastLevel, h.endFlag, h.specialId, fun _ j hj => ?_, ?_⟩
      · rcases Nat.lt_succ_iff_lt_or_eq.mp hj with hj | rfl
        · exact h.low hstart j hj
        · exact hl
      · simp [hstart']
    | true =>
      have hfrom : HighFrom irqs m (m + 1) := by
        refine ⟨h.low hstart, fun j hj hj' => ?_⟩
        obtain rfl : j = m := by omega
        exact hl
      rw [waitFallingEdge_high hstart', if_pos rfl, countSample_idle (by exact hstartCnt)]
      refine ⟨_, Prod.ext rfl (by simp [hdataCnt, oneBitSampleNum]), hsucc, hstartCnt, hdataCnt, h.lastLevel, h.endFlag,
        h.specialId, by simp, fun _ => ⟨⟨m, Nat.lt_succ_self m, hfrom⟩, rfl, rfl⟩⟩
  | true =>
    have hstart' : (countInterrupt s).startFlag = true := hstart
    have hl : (irqs m).level = true := hlevel.resolve_left (by simp [hstart])
    obtain ⟨⟨i, hi, hhigh⟩, hrcv, hcnt⟩ := h.high hstart
    rw [waitFallingEdge_started hstart', hstart', if_pos rfl, hl, countSample_idle hstartCnt]
    refine ⟨_, Prod.ext rfl (by simp [hdataCnt, oneBitSampleNum]), hsucc, hstartCnt, hdataCnt, h.lastLevel, h.endFlag,
      h.specialId, by simp [hstart'], fun _ => ⟨⟨i, by omega, highFrom_succ hhigh hl⟩, hrcv, hcnt⟩⟩

theorem counter_succ {w : ℕ} {x : BitVec w} (hk : x.toNat = k) (hlt : k + 1 < 2 ^ w) : (x + 1).toNat = k + 1 := by
  have hadd : (x + 1).toNat = (x.toNat + (1 : BitVec w).toNat) % 2 ^ w := BitVec.toNat_add x 1
  have hone : (1 : BitVec w).toNat = 1 := (BitVec.toNat_ofNat 1 w).trans (Nat.mod_eq_of_lt (by omega))
  rw [hadd, hone, hk, Nat.mod_eq_of_lt hlt]

theorem countSample_counted {level : Bool} (h : s.startCnt ≠ 0 ∨ level = false) :
    countSample level s = { s with
      startCnt := s.startCnt + 1
      dataCnt := (if level = s.lastLevel then s.dataCnt else 0) + 1
      lastLevel := level } :=
  if_pos h

theorem Active.counted (h : Active irqs n k s) (hfirst : k = 0 → (irqs n).level = false) :
    s.startCnt ≠ 0 ∨ (irqs (n + k)).level = false := by
  rcases Nat.eq_zero_or_pos k with rfl | hpos
  · exact Or.inr (hfirst rfl)
  · refine Or.inl fun h0 => ?_
    have hzero := h.startCnt
    rw [h0] at hzero
    exact absurd hzero (Nat.ne_of_lt hpos)

theorem Active.dataCnt_succ (h : Active irqs n k s) (hk : k ≤ maxSampleNum) :
    ((if (irqs (n + k)).level = s.lastLevel then s.dataCnt else 0) + 1).toNat = stretch irqs n (k + 1) := by
  have hk' : k ≤ 240 := hk
  have hstretch : stretch irqs n k ≤ k := stretch_le irqs n k
  rw [stretch, ← h.lastLevel]
  split
  · exact counter_succ h.dataCnt (by omega)
  · rfl

/-- An interrupt takes the next sample, and stores it in the middle of a bit. -/
theorem Active.sample (h : Active irqs n k s) (hk : k ≤ maxSampleNum) (hn : n < cspDataBits * oneBitSampleNum)
    (hfirst : k = 0 → (irqs n).level = false) :
    ∃ t, sample (irqs (n + k)).level s =
        (t, decide (stretch irqs n (k + 1) % oneBitSampleNum = oneBitSampleNum / 2)) ∧
      t.bitNumCnt.toNat = (bits irqs n k).length ∧
      (¬stretch irqs n (k + 1) % oneBitSampleNum = oneBitSampleNum / 2 → Active irqs n (k + 1) t) ∧
      (stretch irqs n (k + 1) % oneBitSampleNum = oneBitSampleNum / 2 → (bits irqs n k).length < 32 →
        Active irqs n (k + 1) (storeBit (irqs (n + k)).level t)) := by
  have hk' : k ≤ 240 := hk
  have hend : checkEnd (countInterrupt s) = countInterrupt s := by
    apply checkEnd_running
    · intro h0
      have hk0 : k = 0 := h.startCnt.symm.trans (congrArg BitVec.toNat h0)
      exact (countInterrupt_sampleCnt (h.sampleCnt hk0) hn).symm ▸ hn
    · exact h.startCnt.symm ▸ hk
  have hactive : (countInterrupt s).startFlag = true := h.startFlag
  have hcounted : (countInterrupt s).startCnt ≠ 0 ∨ (irqs (n + k)).level = false := h.counted hfirst
  have hstartCnt : (s.startCnt + 1).toNat = k + 1 := counter_succ h.startCnt (by omega)
  have hdataCnt := h.dataCnt_succ hk
  rw [sample_running hend h.endFlag, waitFallingEdge_started hactive, if_pos hactive, countSample_counted hcounted]
  refine ⟨_, Prod.ext rfl ?_, h.bitNumCnt, fun hmiddle => ?_, fun hmiddle hlen => ?_⟩
  · exact congrArg (fun x => decide (x % oneBitSampleNum = oneBitSampleNum / 2)) hdataCnt
  · have hbits : bits irqs n (k + 1) = bits irqs n k := if_neg hmiddle
    exact ⟨hstartCnt, fun h0 => absurd h0 (Nat.succ_ne_zero k), hdataCnt, rfl, hactive, h.endFlag, h.specialId,
      hbits ▸ h.bitNumCnt, hbits ▸ h.rcvDat⟩
  · have hbits : bits irqs n (k + 1) = bits irqs n k ++ [(irqs (n + k)).level] := if_pos hmiddle
    have hidx : (countInterrupt s).bitNumCnt.toNat = (bits irqs n k).length := h.bitNumCnt
    have hrcv := h.rcvDat.setBit (irqs (n + k)).level hlen
    simp only [storeBit, writeBit, hidx, if_pos hlen]
    refine ⟨hstartCnt, fun h0 => absurd h0 (Nat.succ_ne_zero k), hdataCnt, rfl, hactive, h.endFlag, h.specialId, ?_, ?_⟩
    · rw [hbits, List.length_append]
      exact counter_succ hidx (by omega)
    · rw [hbits]
      exact hrcv

theorem bits_length_succ (n k : ℕ) : (bits irqs n (k + 1)).length =
    (bits irqs n k).length + if stretch irqs n (k + 1) % oneBitSampleNum = oneBitSampleNum / 2 then 1 else 0 := by
  rw [bits]
  split
  · exact List.length_append
  · rfl

/-- The examination after a stored bit. -/
theorem Active.examine_unknown (stopBit : Bool) (h : Active irqs n k s) (hlen : (bits irqs n k).length ≤ 32)
    (hunknown : ¬KnownChar table (bits irqs n k)) :
    ∃ t, examine table stopBit s = some t ∧ Active irqs n k t := by
  by_cases hten : 10 ≤ s.bitNumCnt.toNat
  · have hid : (detectChar table s).specialId = 0 := by
      by_contra hne
      exact hunknown ((detectChar_specialId table h.rcvDat h.bitNumCnt hlen (h.bitNumCnt ▸ hten) h.specialId).mp hne)
    refine ⟨detectChar table s, by simp [examine, hten, hid], ?_⟩
    have hkeep : Active irqs n k { s with specialId := (0 : BitVec 8) } :=
      ⟨h.startCnt, h.sampleCnt, h.dataCnt, h.lastLevel, h.startFlag, h.endFlag, rfl, h.bitNumCnt, h.rcvDat⟩
    have heq : detectChar table s = { s with specialId := (detectChar table s).specialId } := by
      rw [detectChar]
      split
      · rfl
      · rfl
    rw [heq, hid]
    exact hkeep
  · exact ⟨s, if_neg hten, h⟩

theorem Active.examine_known {stopBit : Bool} (h : Active irqs n k s) (hlen : (bits irqs n k).length ≤ 32)
    (hknown : KnownChar table (bits irqs n k)) :
    examine table stopBit s = endSample stopBit (detectChar table s) := by
  have hten : 10 ≤ (bits irqs n k).length := hknown.length_le
  have hid := (detectChar_specialId table h.rcvDat h.bitNumCnt hlen hten h.specialId).mpr hknown
  rw [← h.bitNumCnt] at hten
  rw [examine, if_pos hten]
  exact if_pos hid

theorem Active.handler_unknown (h : Active irqs n k s) (hk : k ≤ maxSampleNum)
    (hn : n < cspDataBits * oneBitSampleNum) (hfirst : k = 0 → (irqs n).level = false)
    (hlen : (bits irqs n (k + 1)).length ≤ 32) (hunknown : ¬KnownChar table (bits irqs n (k + 1))) :
    ∃ t, softSampleTimerHandler table (irqs (n + k)) s = some t ∧ Active irqs n (k + 1) t := by
  obtain ⟨t, hsample, -, hskip, hstore⟩ := h.sample hk hn hfirst
  by_cases hmiddle : stretch irqs n (k + 1) % oneBitSampleNum = oneBitSampleNum / 2
  · have hlt : (bits irqs n k).length < 32 := by
      rw [bits_length_succ, if_pos hmiddle] at hlen
      omega
    obtain ⟨u, hu, hactive⟩ := (hstore hmiddle hlt).examine_unknown (irqs (n + k)).stopBit hlen hunknown
    refine ⟨u, ?_, hactive⟩
    simp only [softSampleTimerHandler, hsample, hmiddle, decide_true, if_true]
    exact hu
  · refine ⟨t, ?_, hskip hmiddle⟩
    simp only [softSampleTimerHandler, hsample, hmiddle, decide_false, Bool.false_eq_true, if_false]

/-- The first known character ends the sampling, where the line becomes high again. -/
theorem Active.handler_known (h : Active irqs n k s) (hk : k ≤ maxSampleNum)
    (hn : n < cspDataBits * oneBitSampleNum) (hfirst : k = 0 → (irqs n).level = false)
    (hlen : (bits irqs n (k + 1)).length ≤ 32) (hbefore : ¬KnownChar table (bits irqs n k))
    (hknown : KnownChar table (bits irqs n (k + 1))) :
    ∃ t, softSampleTimerHandler table (irqs (n + k)) s = endSample (irqs (n + k)).stopBit t := by
  obtain ⟨t, hsample, -, -, hstore⟩ := h.sample hk hn hfirst
  have hmiddle : stretch irqs n (k + 1) % oneBitSampleNum = oneBitSampleNum / 2 := by
    by_contra hno
    exact hbefore ((if_neg hno : bits irqs n (k + 1) = bits irqs n k) ▸ hknown)
  have hlt : (bits irqs n k).length < 32 := by
    rw [bits_length_succ, if_pos hmiddle] at hlen
    omega
  refine ⟨detectChar table (storeBit (irqs (n + k)).level t), ?_⟩
  simp only [softSampleTimerHandler, hsample, hmiddle, decide_true, if_true]
  exact (hstore hmiddle hlt).examine_known hlen hknown

/-! ### Runs -/

theorem handler_of_sample {irq : Interrupt} {t : Sampler} (h : sample irq.level s = (t, false)) :
    softSampleTimerHandler table irq s = some t := by
  simp only [softSampleTimerHandler, h, Bool.false_eq_true, if_false]

theorem softSampleInit_waiting (type : SampleType) (keepDiv : Bool) (s : Sampler) :
    Waiting irqs 0 (softSampleInit type keepDiv s) := by
  cases type with
  | crystal => exact ⟨rfl, rfl, rfl, rfl, rfl, rfl, fun _ j hj => absurd hj (Nat.not_lt_zero j), nofun⟩
  | pll =>
    unfold softSampleInit
    dsimp only
    split
    · exact ⟨rfl, rfl, rfl, rfl, rfl, rfl, fun _ j hj => absurd hj (Nat.not_lt_zero j), nofun⟩
    · exact ⟨rfl, rfl, rfl, rfl, rfl, rfl, fun _ j hj => absurd hj (Nat.not_lt_zero j), nofun⟩

/-- What holds before interrupt `m` where the waveform fits the word. -/
inductive Phase (table : List (BitVec 8)) (irqs : ℕ → Interrupt) (m : ℕ) (s : Sampler) : Prop where
  | waiting (hm : m ≤ cspDataBits * oneBitSampleNum) (h : Waiting irqs m s)
  | active (n k : ℕ) (hm : m = n + k) (hn : n < cspDataBits * oneBitSampleNum) (hfirst : FirstLow irqs n)
      (hk : k ≤ maxSampleNum + 1) (hunknown : ∀ j ≤ k, ¬KnownChar table (bits irqs n j)) (h : Active irqs n k s)
  | ended (h : s.endFlag = true)

theorem not_knownChar_zero (n : ℕ) : ¬KnownChar table (bits irqs n 0) := by
  intro h
  exact absurd h.length_le (by simp [bits])

/-- What an interrupt writes is a bit of the receive word, and the handler comes to the next phase. -/
def Advances (table : List (BitVec 8)) (irqs : ℕ → Interrupt) (m : ℕ) (s : Sampler) : Prop :=
  ((sample (irqs m).level s).2 = true → InWord (irqs m).level (sample (irqs m).level s).1) ∧
    ∃ t, softSampleTimerHandler table (irqs m) s = some t ∧ Phase table irqs (m + 1) t

theorem advances_of_ended (h : (checkEnd (countInterrupt s)).endFlag = true) : Advances table irqs m s := by
  obtain ⟨t, ht, hend⟩ := sample_ended (irqs m).level h
  exact ⟨by simp [ht], t, handler_of_sample ht, Phase.ended hend⟩

theorem Active.advances (hfits : FitsWord table irqs) (hn : n < cspDataBits * oneBitSampleNum)
    (hfirst : FirstLow irqs n) (hk : k ≤ maxSampleNum + 1) (hunknown : ∀ j ≤ k, ¬KnownChar table (bits irqs n j))
    (h : Active irqs n k s) : Advances table irqs (n + k) s := by
  rcases Nat.lt_succ_iff_lt_or_eq.mp (Nat.lt_succ_of_le hk) with hlt | rfl
  · have hk' : k ≤ maxSampleNum := Nat.le_of_lt_succ hlt
    have hlow : k = 0 → (irqs n).level = false := fun _ => hfirst.2
    obtain ⟨hlen, hstop⟩ := hfits n hn hfirst (k + 1) (Nat.succ_le_succ hk') fun j hj => hunknown j (Nat.le_of_lt_succ hj)
    constructor
    · obtain ⟨t, ht, hidx, -, -⟩ := h.sample hk' hn hlow
      simp only [ht, decide_eq_true_eq]
      intro hmiddle
      rw [bits_length_succ, if_pos hmiddle] at hlen
      rw [inWord_iff, hidx]
      omega
    · by_cases hknown : KnownChar table (bits irqs n (k + 1))
      · obtain ⟨t, ht⟩ := h.handler_known hk' hn hlow hlen (hunknown k (Nat.le_refl k)) hknown
        have hs : (irqs (n + k)).stopBit = true := hstop hknown
        rw [hs] at ht
        exact ⟨_, ht, Phase.ended rfl⟩
      · obtain ⟨t, ht, hactive⟩ := h.handler_unknown hk' hn hlow hlen hknown
        refine ⟨t, ht, Phase.active n (k + 1) rfl hn hfirst (Nat.succ_le_succ hk') (fun j hj => ?_) hactive⟩
        rcases Nat.le_succ_iff.mp hj with hj | rfl
        · exact hunknown j hj
        · exact hknown
  · apply advances_of_ended
    apply checkEnd_ended
    refine Or.inr (Or.inr ?_)
    exact h.startCnt.symm ▸ Nat.lt_succ_self maxSampleNum

theorem Phase.advances (hfits : FitsWord table irqs) (h : Phase table irqs m s) : Advances table irqs m s := by
  cases h with
  | waiting hm h =>
    rcases Nat.lt_or_eq_of_le hm with hlt | rfl
    · by_cases hlevel : s.startFlag = false ∨ (irqs m).level = true
      · obtain ⟨t, ht, hwait⟩ := h.sample hlt hlevel
        exact ⟨by simp [ht], t, handler_of_sample ht, Phase.waiting hlt hwait⟩
      · obtain ⟨hstart, hlow⟩ : s.startFlag = true ∧ (irqs m).level = false := by simpa using hlevel
        have hfirst : FirstLow irqs m := ⟨(h.high hstart).1, hlow⟩
        refine (h.active hstart).advances hfits hlt hfirst (Nat.zero_le _) fun j hj => ?_
        exact Nat.le_zero.mp hj ▸ not_knownChar_zero m
    · apply advances_of_ended
      apply checkEnd_ended
      refine Or.inr (Or.inl ⟨?_, h.startCnt⟩)
      have hsucc : (countInterrupt s).sampleCnt.toNat = cspDataBits * oneBitSampleNum + 1 := counter_succ h.sampleCnt (by decide)
      exact hsucc.symm ▸ Nat.lt_succ_self _
  | active n k hm hn hfirst hk hunknown h =>
    subst hm
    exact h.advances hfits hn hfirst hk hunknown
  | ended h =>
    apply advances_of_ended
    exact checkEnd_ended (Or.inl h)

theorem stateAt_phase (hfits : FitsWord table irqs) (h : Waiting irqs 0 s) (m : ℕ) :
    ∃ t, stateAt table irqs s m = some t ∧ Phase table irqs m t := by
  induction m with
  | zero => exact ⟨s, rfl, Phase.waiting (Nat.zero_le _) h⟩
  | succ m ih =>
    obtain ⟨t, ht, hphase⟩ := ih
    obtain ⟨-, u, hu, hnext⟩ := hphase.advances hfits
    exact ⟨u, by rw [stateAt, ht, Option.bind_some, hu], hnext⟩

theorem staysInside_of_fits (hfits : FitsWord table irqs) (h : Waiting irqs 0 s) : StaysInside table irqs s := by
  constructor
  · intro m t ht
    obtain ⟨u, hu, hphase⟩ := stateAt_phase hfits h m
    obtain rfl : t = u := Option.some.inj (ht.symm.trans hu)
    exact (hphase.advances hfits).1
  · obtain ⟨t, ht, hphase⟩ := stateAt_phase hfits h endBound
    refine ⟨endBound, Nat.le_refl _, t, ht, ?_⟩
    cases hphase with
    | waiting hm => exact absurd hm (by decide)
    | active n k hm hn _ hk =>
      have hm' : 322 = n + k := hm
      have hn' : n < 80 := hn
      have hk' : k ≤ 241 := hk
      omega
    | ended h => exact h

theorem endFlag_stays {t : Sampler} (hs : stateAt table irqs s m = some t) (hend : t.endFlag = true) (d : ℕ) :
    ∃ u, stateAt table irqs s (m + d) = some u ∧ u.endFlag = true := by
  induction d with
  | zero => exact ⟨t, hs, hend⟩
  | succ d ih =>
    obtain ⟨u, hu, hend'⟩ := ih
    obtain ⟨v, hv, hend''⟩ := sample_ended (irqs (m + d)).level (checkEnd_ended (s := countInterrupt u) (Or.inl hend'))
    exact ⟨v, by rw [← Nat.add_assoc, stateAt, hu, Option.bind_some, handler_of_sample hv], hend''⟩

theorem stateAt_none (h : stateAt table irqs s m = none) (d : ℕ) : stateAt table irqs s (m + d) = none := by
  induction d with
  | zero => exact h
  | succ d ih => rw [← Nat.add_assoc, stateAt, ih, Option.bind_none]

/-- The sampling does not end when the handler hangs before its end. -/
theorem not_ends_of_hang {t : Sampler} (hs : stateAt table irqs s m = some t) (hrunning : t.endFlag = false)
    (hnone : stateAt table irqs s (m + 1) = none) : ¬∃ j ≤ endBound, ∃ u, stateAt table irqs s j = some u ∧ u.endFlag = true := by
  rintro ⟨j, -, u, hu, hend⟩
  rcases Nat.lt_or_ge m j with hlt | hle
  · obtain ⟨d, rfl⟩ : ∃ d, j = m + 1 + d := ⟨j - (m + 1), by omega⟩
    rw [stateAt_none hnone] at hu
    cases hu
  · obtain ⟨d, rfl⟩ : ∃ d, m = j + d := ⟨m - j, by omega⟩
    obtain ⟨v, hv, hend'⟩ := endFlag_stays hu hend d
    obtain rfl : v = t := Option.some.inj (hv.symm.trans hs)
    rw [hrunning] at hend'
    cases hend'

/-- The state before the first falling edge. -/
theorem stateAt_waiting (hfirst : FirstLow irqs n) (hn : n < cspDataBits * oneBitSampleNum) (h : Waiting irqs 0 s) (hm : m ≤ n) :
    ∃ t, stateAt table irqs s m = some t ∧ Waiting irqs m t := by
  induction m with
  | zero => exact ⟨s, rfl, h⟩
  | succ m ih =>
    obtain ⟨t, ht, hwait⟩ := ih (Nat.le_of_succ_le hm)
    have hlevel : t.startFlag = false ∨ (irqs m).level = true := by
      cases hstart : t.startFlag with
      | false => exact Or.inl rfl
      | true =>
        obtain ⟨⟨i, hi, hhigh⟩, -⟩ := hwait.high hstart
        exact Or.inr (firstLow_level hfirst hm hi hhigh)
    obtain ⟨u, hu, hnext⟩ := hwait.sample (Nat.lt_trans hm hn) hlevel
    exact ⟨u, by rw [stateAt, ht, Option.bind_some, handler_of_sample hu], hnext⟩

theorem Waiting.startFlag_of_firstLow (hfirst : FirstLow irqs n) (h : Waiting irqs n s) : s.startFlag = true := by
  obtain ⟨⟨i, hi, -, hhigh⟩, -⟩ := hfirst
  cases hstart : s.startFlag with
  | true => rfl
  | false =>
    have hlow := h.low hstart i hi
    rw [hhigh i (Nat.le_refl i) hi] at hlow
    cases hlow

/-- As long as the sampler stays inside, it follows the samples up to the first known character. -/
theorem stateAt_active (hin : StaysInside table irqs s) (hfirst : FirstLow irqs n)
    (hn : n < cspDataBits * oneBitSampleNum) (h : Waiting irqs 0 s) (hk : k ≤ maxSampleNum + 1)
    (hunknown : ∀ j < k, ¬KnownChar table (bits irqs n j)) :
    (bits irqs n k).length ≤ 32 ∧
      (¬KnownChar table (bits irqs n k) → ∃ t, stateAt table irqs s (n + k) = some t ∧ Active irqs n k t) ∧
      (KnownChar table (bits irqs n k) → (irqs (n + k - 1)).stopBit = true) := by
  induction k with
  | zero =>
    obtain ⟨t, ht, hwait⟩ := stateAt_waiting hfirst hn h (Nat.le_refl n)
    refine ⟨by simp [bits], fun _ => ⟨t, ht, hwait.active (hwait.startFlag_of_firstLow hfirst)⟩, fun hknown => ?_⟩
    exact absurd hknown (not_knownChar_zero n)
  | succ k ih =>
    have hk' : k ≤ maxSampleNum := Nat.le_of_succ_le_succ hk
    have hlow : k = 0 → (irqs n).level = false := fun _ => hfirst.2
    have hk0 : ¬KnownChar table (bits irqs n k) := hunknown k (Nat.lt_succ_self k)
    obtain ⟨hlen, hstate, -⟩ := ih (Nat.le_of_succ_le hk) fun j hj => hunknown j (Nat.lt_succ_of_lt hj)
    obtain ⟨t, ht, hactive⟩ := hstate hk0
    have hlen' : (bits irqs n (k + 1)).length ≤ 32 := by
      obtain ⟨u, hu, hidx, -, -⟩ := hactive.sample hk' hn hlow
      rw [bits_length_succ]
      split
      · next hmiddle =>
        have hword := hin.1 (n + k) t ht (by simp [hu, hmiddle])
        rw [hu, inWord_iff, hidx] at hword
        exact hword
      · exact hlen
    have hnext : stateAt table irqs s (n + (k + 1)) = softSampleTimerHandler table (irqs (n + k)) t := by
      rw [← Nat.add_assoc, stateAt, ht, Option.bind_some]
    refine ⟨hlen', fun hunk => ?_, fun hknown => ?_⟩
    · obtain ⟨u, hu, hactive'⟩ := hactive.handler_unknown hk' hn hlow hlen' hunk
      exact ⟨u, hnext.trans hu, hactive'⟩
    · obtain ⟨u, hu⟩ := hactive.handler_known hk' hn hlow hlen' hk0 hknown
      have hidx : n + (k + 1) - 1 = n + k := by omega
      rw [hidx]
      by_contra hstop
      rw [Bool.not_eq_true] at hstop
      rw [hstop] at hu
      exact not_ends_of_hang ht hactive.endFlag (hnext.trans hu) hin.2

/-- The sampler stays inside its receive word, and ends in time, exactly on these waveforms. -/
theorem staysInside_iff (table : List (BitVec 8)) (irqs : ℕ → Interrupt) (type : SampleType) (keepDiv : Bool) (s : Sampler) :
    StaysInside table irqs (softSampleInit type keepDiv s) ↔ FitsWord table irqs := by
  have hwait : Waiting irqs 0 (softSampleInit type keepDiv s) := softSampleInit_waiting type keepDiv s
  constructor
  · intro hin n hn hfirst k hk hunknown
    obtain ⟨hlen, -, hstop⟩ := stateAt_active hin hfirst hn hwait hk hunknown
    exact ⟨hlen, hstop⟩
  · exact fun hfits => staysInside_of_fits hfits hwait

/-! ### A waveform that leaves the word -/

def knownChar (table : List (BitVec 8)) (word : List Bool) : Bool :=
  match word.drop (word.length - 10) with
  | true :: false :: c => c.length == 8 && searchChar (charOf c) table 0 0 != 0
  | _ => false

theorem knownChar_iff (word : List Bool) : knownChar table word = true ↔ KnownChar table word := by
  constructor
  · intro h
    unfold knownChar at h
    split at h
    · next c hc =>
      rw [Bool.and_eq_true, beq_iff_eq, bne_iff_ne] at h
      exact ⟨word.take (word.length - 10), c, by rw [← hc, List.take_append_drop], h⟩
    · cases h
  · rintro ⟨before, c, rfl, hc, hid⟩
    have hdrop : (before ++ true :: false :: c).drop ((before ++ true :: false :: c).length - 10) = true :: false :: c := by
      simp [hc]
    rw [knownChar, hdrop]
    simpa [hc] using hid

instance decidableKnownChar (word : List Bool) : Decidable (KnownChar table word) :=
  decidable_of_iff _ (knownChar_iff word)

/-- `g_AT_Req_third_chars`. -/
def atReqThirdChars : List (BitVec 8) := [0x2B, 0x0D, 0x44, 0x49, 0x45, 0x65]

/-- The level changes at every fourth sample. -/
def fastWave (m : ℕ) : Interrupt := ⟨m / 4 % 2 == 0, true⟩

theorem wakeupRea_lt : 1 < 4 := by decide

def clearedSampler : Sampler :=
  ⟨0, 0, false, false, false, .crystal, false, false, ⟨1, wakeupRea_lt⟩, fun _ => 0, 0, 0, 0, 0, 0, 0, 0, 0, fun _ => 0, fun _ => 0, 0, 0⟩

theorem fastWave_firstLow : FirstLow fastWave 4 := by
  refine ⟨⟨0, by decide, fun j hj => absurd hj (Nat.not_lt_zero j), fun j _ hj => ?_⟩, by decide⟩
  exact (by decide : ∀ j < 4, (fastWave j).level = true) j hj

/-- Its thirty-third bit is written next to the word. -/
theorem not_staysInside : ¬StaysInside atReqThirdChars fastWave (softSampleInit .crystal false clearedSampler) := by
  intro hin
  have hwait : Waiting fastWave 0 (softSampleInit .crystal false clearedSampler) := softSampleInit_waiting _ _ _
  have hunknown : ∀ j < 128, ¬KnownChar atReqThirdChars (bits fastWave 4 j) := by decide +kernel
  have hlen : (bits fastWave 4 128).length = 33 := by decide +kernel
  have hfits := (stateAt_active hin fastWave_firstLow (by decide) hwait (by decide) hunknown).1
  rw [hlen] at hfits
  exact absurd hfits (by decide)

end NbiotXY1100.SoftSampler
