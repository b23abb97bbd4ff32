import NbiotXY1100.SimCard

/-! # What an answer to reset announces

The format bytes of an answer to reset announce the interface bytes that follow, the first
one also the number of historical bytes. A walk over the announced characters says what
the byte parser takes, for every sequence of bytes. -/
namespace NbiotXY1100.SimAtr
open SimCard

/-- The interface bytes behind the first, the second and every later format byte. -/
inductive Level where
  | first | second | later
  deriving DecidableEq, Repr

inductive Slot where
  | ta | tb | tc | td
  deriving DecidableEq, Repr

namespace Level

def next : Level → Level
  | first => second
  | second => later
  | later => later

/-- The state in which the parser reads the format byte before the level. -/
def base : Level → AtrCtrlState
  | first => .parseT0
  | second => .parseTD1
  | later => .parseTD2

def state : Level → Slot → AtrCtrlState
  | first, .ta => .parseTA1
  | first, .tb => .parseTB1
  | first, .tc => .parseTC1
  | first, .td => .parseTD1
  | second, .ta => .parseTA2
  | second, .tb => .parseTB2
  | second, .tc => .parseTC2
  | second, .td => .parseTD2
  | later, .ta => .parseTAi
  | later, .tb => .parseTBi
  | later, .tc => .parseTCi
  | later, .td => .parseTDi

/-- The state in which the parser reads the next one of the pending interface bytes. -/
def pendingState (l : Level) : List Slot → AtrCtrlState
  | [] => .parseHistoryBytes
  | s :: _ => l.state s

end Level

/-- The interface bytes that the four bits announce. -/
def slots (bitmap : UInt8) : List Slot :=
  (if bitmap &&& 1 ≠ 0 then [.ta] else []) ++ (if bitmap &&& 2 ≠ 0 then [.tb] else []) ++
    (if bitmap &&& 4 ≠ 0 then [.tc] else []) ++ (if bitmap &&& 8 ≠ 0 then [.td] else [])

theorem exists_highNibble (c : UInt8) : ∃ n : Fin 16, highNibble c = UInt8.ofNat n.val := by
  have hlt : (highNibble c).toNat < 16 := by
    have hle : c.toNat &&& 240 ≤ 240 := Nat.and_le_right
    change (c.toNat &&& 240) >>> 4 < 16
    rw [Nat.shiftRight_eq_div_pow]
    omega
  refine ⟨⟨(highNibble c).toNat, hlt⟩, ?_⟩
  simp

theorem switchNextState_base (l : Level) (n : Fin 16) :
    switchNextState l.base (UInt8.ofNat n.val) = l.pendingState (slots (UInt8.ofNat n.val)) := by
  cases l <;> revert n <;> decide

theorem switchNextState_slot (l : Level) (n : Fin 16) (s : Slot) (rest : List Slot)
    (h : s :: rest ∈ (slots (UInt8.ofNat n.val)).tails) (hs : s ≠ .td) :
    switchNextState (l.state s) (UInt8.ofNat n.val) = l.pendingState rest := by
  have hall : ∀ n : Fin 16, ∀ t ∈ (slots (UInt8.ofNat n.val)).tails, ∀ l ∈ [Level.first, .second, .later],
      ∀ s ∈ t.head?, s ≠ .td →
        switchNextState (l.state s) (UInt8.ofNat n.val) = l.pendingState t.tail := by
    decide
  exact hall n (s :: rest) h l (by cases l <;> decide) s rfl hs

/-- The parser is about to read the first of the pending interface bytes of the level. -/
structure AtLevel (l : Level) (pending : List Slot) (p : AtrParse) : Prop where
  state : p.state = l.pendingState pending
  tails : pending ∈ (slots p.tBitmap).tails
  nibble : ∃ n : Fin 16, p.tBitmap = UInt8.ofNat n.val

/-- `TA1` codes a clock rate and a bit rate that the driver supports. -/
def Supported (ta1 : UInt8) : Prop := codedFi ta1 ≠ 0 ∧ codedDi ta1 ≠ 0

instance : DecidablePred Supported := fun _ => inferInstanceAs (Decidable (_ ∧ _))

/-- What the characters announce from some point on: how many the parser takes, whether the
rates are supported and a check character ends them, and the bytes `TA1` and `TA2`. -/
structure Announced where
  length : ℕ
  supported : Bool
  tck : Bool
  ta1 : Option UInt8
  ta2 : Option UInt8
  deriving DecidableEq, Repr

/-- One character more in front, which is the first or the second `TA` where one is given. -/
def Announced.cons (ta1 ta2 : Option UInt8) (a : Announced) : Announced :=
  { a with length := a.length + 1, ta1 := a.ta1.or ta1, ta2 := a.ta2.or ta2 }

/-- A format byte announces a protocol other than T=0; the first one's T=15 does not count. -/
def announcesOther (l : Level) (td : UInt8) : Bool :=
  lowNibble td ≠ 0 ∧ ¬(l = .first ∧ lowNibble td = 15)

/-- The historical bytes and the check character. The parser always takes one historical byte. -/
def announcedHistory (k : ℕ) (tck : Bool) : Announced :=
  ⟨max k 1 + (if tck then 1 else 0), true, tck, none, none⟩

/-- The character, if the slot is the `TA` of the level. -/
def taOf (level l : Level) (s : Slot) (c : UInt8) : Option UInt8 := if l = level ∧ s = .ta then some c else none

/-- The characters from the pending interface bytes on, with `k` historical bytes announced. -/
def announced (l : Level) (pending : List Slot) (k : ℕ) (tck : Bool) (card : List UInt8) : Announced :=
  match pending with
  | [] => announcedHistory k tck
  | s :: pending =>
    match card with
    | [] => ⟨pending.length + 1, true, tck, none, none⟩
    | c :: card =>
      if l = .first ∧ s = .ta ∧ ¬Supported c then ⟨1, false, tck, some c, none⟩
      else if s = .td then
        (announced l.next (slots (highNibble c)) k (tck || announcesOther l c) card).cons none none
      else (announced l pending k tck card).cons (taOf .first l s c) (taOf .second l s c)

/-- A step of the parser replaces the rates and bytes by those of `ta1` and `ta2` only, and
leaves the procedure alone. -/
structure Keeps (ta1 ta2 : Option UInt8) (p q : AtrParse) : Prop where
  defaultTA1 : q.driver.defaultTA1 = ta1.getD p.driver.defaultTA1
  fi : q.driver.profile.fi = (ta1.map codedFi).getD p.driver.profile.fi
  di : q.driver.profile.di = (ta1.map codedDi).getD p.driver.profile.di
  ta2SpecificMode : q.driver.profile.ta2SpecificMode = (ta2.map (· &&& 0x10)).getD p.driver.profile.ta2SpecificMode
  procedure : q.driver.currentProcedure = p.driver.currentProcedure

theorem otherIndicated_indicate (t : UInt8) (profile : SimCardProfile) (h : t.toNat < 16) :
    (profile.indicate t).otherIndicated = (profile.otherIndicated || decide (t ≠ 0)) := by
  have hbit : ∀ n : Fin 16, (1 <<< n.val &&& (2 ^ 16 - 2) ≠ 0 ↔ n ≠ 0) := by decide
  have ht := hbit ⟨t.toNat, h⟩
  have hzero : (⟨t.toNat, h⟩ : Fin 16) ≠ 0 ↔ t ≠ 0 := by
    rw [ne_eq, ne_eq, Fin.ext_iff, ← UInt8.toNat_inj]
    rfl
  rw [SimCardProfile.otherIndicated, SimCardProfile.otherIndicated, SimCardProfile.indicate,
    Nat.and_or_distrib_right, Bool.eq_iff_iff]
  simp only [decide_eq_true_eq, Bool.or_eq_true, ne_eq, Nat.or_eq_zero_iff, not_and_or]
  rw [← ne_eq (1 <<< t.toNat &&& _), ht, hzero]

theorem lowNibble_lt (c : UInt8) : (lowNibble c).toNat < 16 := by
  have hle : c.toNat &&& 15 ≤ 15 := Nat.and_le_right
  change c.toNat &&& 15 < 16
  omega

variable {l : Level} {pending : List Slot} {p : AtrParse} {c : UInt8}

/-- A first `TA1` with unsupported rates ends the answer. -/
theorem parse_unsupported (h : AtLevel .first (.ta :: pending) p) (hc : ¬Supported c) :
    (atrCharacterParse c p).state = .failure ∧ Keeps (some c) none p (atrCharacterParse c p) ∧
      (atrCharacterParse c p).driver.profile.otherIndicated = p.driver.profile.otherIndicated := by
  have hstate : p.state = .parseTA1 := h.state
  have hbad : codedFi c = 0 ∨ codedDi c = 0 := by
    simpa only [Supported, not_and_or, not_not, ne_eq] using hc
  simp only [atrCharacterParse, hstate, if_pos hbad]
  exact ⟨rfl, ⟨rfl, rfl, rfl, rfl, rfl⟩, rfl⟩

theorem parse_td_eq (h : p.state = l.state .td) :
    atrCharacterParse c p =
      (({ p with tBitmap := highNibble c }.setProfile
        (if l = Level.first ∧ lowNibble c = 15 then id else (·.indicate (lowNibble c)))).setState
        (switchNextState l.next.base (highNibble c))) := by
  cases l with
  | first =>
    replace h : p.state = .parseTD1 := h
    by_cases h15 : lowNibble c = 15
    · simp only [atrCharacterParse, h, h15, if_true, and_self]
      simp only [AtrParse.switchNext, AtrParse.state] at h ⊢
      rw [h]
      rfl
    · simp only [atrCharacterParse, h, h15, if_false, and_false]
      simp only [AtrParse.switchNext, AtrParse.setProfile, AtrParse.state] at h ⊢
      rw [h]
      rfl
  | second =>
    replace h : p.state = .parseTD2 := h
    simp only [atrCharacterParse, h, reduceCtorEq, false_and, if_false]
    simp only [AtrParse.switchNext, AtrParse.setProfile, AtrParse.state] at h ⊢
    rw [h]
    rfl
  | later =>
    replace h : p.state = .parseTDi := h
    simp only [atrCharacterParse, h, reduceCtorEq, false_and, if_false]
    rfl

/-- The format byte at the end of a level opens the next one. -/
theorem parse_td (h : AtLevel l (.td :: pending) p) :
    AtLevel l.next (slots (highNibble c)) (atrCharacterParse c p) ∧ Keeps none none p (atrCharacterParse c p) ∧
      (atrCharacterParse c p).historyBytes = p.historyBytes ∧
      (atrCharacterParse c p).driver.profile.otherIndicated =
        (p.driver.profile.otherIndicated || announcesOther l c) := by
  obtain ⟨n, hn⟩ := exists_highNibble c
  have hbase : switchNextState l.next.base (highNibble c) = l.next.pendingState (slots (highNibble c)) := by
    rw [hn]
    exact switchNextState_base l.next n
  have hother := otherIndicated_indicate (lowNibble c) p.driver.profile (lowNibble_lt c)
  rw [parse_td_eq h.state]
  refine ⟨⟨hbase, by simp, ⟨n, hn⟩⟩, ?_⟩
  by_cases h15 : l = .first ∧ lowNibble c = 15
  · rw [if_pos h15]
    refine ⟨⟨rfl, rfl, rfl, rfl, rfl⟩, rfl, ?_⟩
    simp only [announcesOther, h15, and_self, not_true_eq_false, and_false, decide_false, Bool.or_false]
    rfl
  · rw [if_neg h15]
    refine ⟨⟨rfl, rfl, rfl, rfl, rfl⟩, rfl, hother.trans ?_⟩
    simp only [announcesOther, h15, not_false_eq_true, and_true]

/-- Apart from the state, an interface byte that is no format byte changes single fields. -/
theorem parse_slot_eq {s : Slot} (h : p.state = l.state s) (hs : s ≠ .td)
    (hc : l = .first → s = .ta → Supported c) :
    ∃ q : AtrParse, atrCharacterParse c p = q.switchNext ∧ q.state = p.state ∧ q.tBitmap = p.tBitmap ∧
      Keeps (taOf .first l s c) (taOf .second l s c) p q ∧ q.historyBytes = p.historyBytes ∧
      q.driver.profile.otherIndicated = p.driver.profile.otherIndicated := by
  cases l <;> cases s <;> simp only [Level.state] at h <;> simp only [atrCharacterParse, h]
  case first.ta =>
    have hgood : ¬(codedFi c = 0 ∨ codedDi c = 0) := not_or.mpr (hc rfl rfl)
    rw [if_neg hgood]
    exact ⟨_, rfl, h, rfl, ⟨rfl, rfl, rfl, rfl, rfl⟩, rfl, rfl⟩
  case later.ta =>
    split
    · exact ⟨_, rfl, h, rfl, ⟨rfl, rfl, rfl, rfl, rfl⟩, rfl, rfl⟩
    · exact ⟨_, rfl, h, rfl, ⟨rfl, rfl, rfl, rfl, rfl⟩, rfl, rfl⟩
  case first.td | second.td | later.td => exact absurd rfl hs
  all_goals exact ⟨_, rfl, h, rfl, ⟨rfl, rfl, rfl, rfl, rfl⟩, rfl, rfl⟩

/-- Every other interface byte leads to the one after it. -/
theorem parse_slot {s : Slot} (h : AtLevel l (s :: pending) p) (hs : s ≠ .td)
    (hc : l = .first → s = .ta → Supported c) :
    AtLevel l pending (atrCharacterParse c p) ∧
      Keeps (taOf .first l s c) (taOf .second l s c) p (atrCharacterParse c p) ∧
      (atrCharacterParse c p).historyBytes = p.historyBytes ∧
      (atrCharacterParse c p).driver.profile.otherIndicated = p.driver.profile.otherIndicated := by
  obtain ⟨q, heq, hstate, hbitmap, ⟨hta1, hfi, hdi, hta2, hproc⟩, hhistory, hother⟩ := parse_slot_eq h.state hs hc
  obtain ⟨n, hn⟩ := h.nibble
  have htails := h.tails
  have hlevel := h.state
  have hswitch : switchNextState p.state p.tBitmap = l.pendingState pending := by
    rw [hn] at htails ⊢
    rw [hlevel]
    exact switchNextState_slot l n s pending htails hs
  rw [heq]
  refine ⟨⟨?_, ?_, ⟨n, hbitmap.trans hn⟩⟩, ⟨hta1, hfi, hdi, hta2, hproc⟩, hhistory, hother⟩
  · rw [AtrParse.switchNext_state, hstate, hbitmap, hswitch]
  · rw [AtrParse.switchNext_tBitmap, hbitmap]
    rw [List.mem_tails] at htails ⊢
    exact (List.suffix_cons s pending).trans htails

/-- Bytes paired with consecutive buffer indices. -/
def indexed : UInt8 → List UInt8 → List (UInt8 × UInt8)
  | _, [] => []
  | i, c :: card => (i, c) :: indexed (i + 1) card

def xorAll (bytes : List UInt8) : UInt8 := bytes.foldl (· ^^^ ·) 0

/-- The exclusive or of the bytes on top of what was added up before. -/
def xorFrom (checksum : UInt8) (bytes : List UInt8) : UInt8 := bytes.foldl (· ^^^ ·) checksum

/-- The rest of the reception, from a parser state that has taken in the last character, is
what the announcement `a` says. -/
structure Follows (a : Announced) (rcvNum checksum : UInt8) (written : List (UInt8 × UInt8)) (p : AtrParse)
    (card : List UInt8) (r : AtrResult) : Prop where
  written : r.written = written ++ indexed (rcvNum + 1) (card.take a.length)
  unread : r.unread = card.drop a.length
  result : r.result = true ↔ a.length ≤ card.length ∧ a.supported = true ∧
    (a.tck = true → xorFrom checksum (card.take a.length) = 0)
  ta1 : r.parse.driver.defaultTA1 = a.ta1.getD p.driver.defaultTA1
  fi : r.parse.driver.profile.fi = (a.ta1.map codedFi).getD p.driver.profile.fi
  di : r.parse.driver.profile.di = (a.ta1.map codedDi).getD p.driver.profile.di
  ta2 : r.parse.driver.profile.ta2SpecificMode =
    (a.ta2.map (· &&& 0x10)).getD p.driver.profile.ta2SpecificMode
  procedure : r.parse.driver.currentProcedure = p.driver.currentProcedure

variable {rcvNum checksum : UInt8} {written : List (UInt8 × UInt8)} {card : List UInt8}

theorem receiveCharacters_nil (hs : (atrCharacterParse c p).state ≠ .success)
    (hf : (atrCharacterParse c p).state ≠ .failure) :
    receiveCharacters rcvNum checksum written c p [] =
      ⟨false, (atrCharacterParse c p).setState .failure, written, []⟩ := by
  rw [receiveCharacters]
  simp only [hs, hf, if_false]

theorem receiveCharacters_success (hs : (atrCharacterParse c p).state = .success) :
    receiveCharacters rcvNum checksum written c p card = ⟨true, atrCharacterParse c p, written, card⟩ := by
  rw [receiveCharacters.eq_def]
  simp only [hs, if_true]

theorem receiveCharacters_failure (hf : (atrCharacterParse c p).state = .failure) :
    receiveCharacters rcvNum checksum written c p card = ⟨false, atrCharacterParse c p, written, card⟩ := by
  rw [receiveCharacters.eq_def]
  simp only [hf, reduceCtorEq, if_false, if_true]

/-- Outside the last states of the parser the loop takes one character more. -/
theorem receiveCharacters_cons {d : UInt8} (hs : (atrCharacterParse c p).state ≠ .success)
    (hf : (atrCharacterParse c p).state ≠ .failure) (ht : (atrCharacterParse c p).state ≠ .parseTCK) :
    receiveCharacters rcvNum checksum written c p (d :: card) =
      receiveCharacters (rcvNum + 1) (checksum ^^^ d) (written ++ [(rcvNum + 1, d)]) d
        (atrCharacterParse c p) card := by
  rw [receiveCharacters]
  simp only [hs, hf, ht, if_false]

/-- Before the check character the loop takes exactly that one. -/
theorem follows_tck (ht : (atrCharacterParse c p).state = .parseTCK) (tck : Bool) (htck : tck = true) :
    Follows ⟨1, true, tck, none, none⟩ rcvNum checksum written (atrCharacterParse c p) card
      (receiveCharacters rcvNum checksum written c p card) := by
  have hs : (atrCharacterParse c p).state ≠ .success := by simp [ht]
  have hf : (atrCharacterParse c p).state ≠ .failure := by simp [ht]
  cases card with
  | nil =>
    rw [receiveCharacters_nil hs hf]
    constructor <;> simp [indexed, AtrParse.setState]
  | cons d card =>
    rw [receiveCharacters]
    simp only [ht, reduceCtorEq, if_false, if_true]
    split
    · next hx => constructor <;> simp [indexed, AtrParse.setState, xorFrom, hx]
    · next hx => constructor <;> simp [indexed, AtrParse.setState, xorFrom, hx, htck]

/-- What follows one character later, with that character in front. -/
theorem Follows.cons {a : Announced} {d : UInt8} {q : AtrParse} {r : AtrResult} {ta1 ta2 : Option UInt8}
    (h : Follows a (rcvNum + 1) (checksum ^^^ d) (written ++ [(rcvNum + 1, d)]) q card r)
    (hkeeps : Keeps ta1 ta2 p q) :
    Follows (a.cons ta1 ta2) rcvNum checksum written p (d :: card) r := by
  obtain ⟨hta1, hfi, hdi, hta2, hproc⟩ := hkeeps
  constructor
  · simp [h.written, Announced.cons, indexed]
  · simp [h.unread, Announced.cons]
  · simp [h.result, Announced.cons, xorFrom]
  · rw [h.ta1, hta1, Announced.cons, Option.getD_or]
  · rw [h.fi, hfi, Announced.cons, Option.map_or, Option.getD_or]
  · rw [h.di, hdi, Announced.cons, Option.map_or, Option.getD_or]
  · rw [h.ta2, hta2, Announced.cons, Option.map_or, Option.getD_or]
  · rw [h.procedure, hproc]

/-- The end of the historical bytes, after the last one or after the one that stands for none. -/
theorem parse_history_last (h : p.state = .parseHistoryBytes) (hk : p.historyBytes.toNat ≤ 1) :
    (atrCharacterParse c p).state = (if p.driver.profile.otherIndicated then .parseTCK else .success) ∧
      (atrCharacterParse c p).driver.profile.otherIndicated = p.driver.profile.otherIndicated ∧
      Keeps none none p (atrCharacterParse c p) := by
  have hcount : p.historyBytes = 0 ∨ p.historyBytes = 1 := by
    simp only [← UInt8.toNat_inj]
    change p.historyBytes.toNat = 0 ∨ p.historyBytes.toNat = 1
    omega
  rcases hcount with hcount | hcount
  · simp only [atrCharacterParse, h, hcount, ne_eq, not_true_eq_false, if_false, if_true]
    split <;> exact ⟨rfl, rfl, rfl, rfl, rfl, rfl, rfl⟩
  · have hone : ¬(1 : UInt8) = 0 := by decide
    have hsub : (1 : UInt8) - 1 = 0 := by decide
    simp only [atrCharacterParse, h, hcount, ne_eq, hone, hsub, not_false_eq_true, if_true]
    split <;> exact ⟨rfl, rfl, rfl, rfl, rfl, rfl, rfl⟩

theorem parse_history_more (h : p.state = .parseHistoryBytes) (hk : 1 < p.historyBytes.toNat) :
    atrCharacterParse c p = { p with historyBytes := p.historyBytes - 1 } ∧
      (p.historyBytes - 1).toNat = p.historyBytes.toNat - 1 := by
  have hsub : (p.historyBytes - 1).toNat = p.historyBytes.toNat - 1 := by
    rw [UInt8.toNat_sub_of_le _ _ (UInt8.le_iff_toNat_le.mpr (by change 1 ≤ _; omega))]
    rfl
  have hne : p.historyBytes ≠ 0 := by
    intro h0
    rw [h0] at hk
    exact absurd hk (by decide)
  have hne' : p.historyBytes - 1 ≠ 0 := by
    intro h0
    rw [h0] at hsub
    change 0 = _ at hsub
    omega
  refine ⟨?_, hsub⟩
  simp only [atrCharacterParse, h, hne, hne', ne_eq, not_false_eq_true, if_true, if_false]

theorem follows_done (p : AtrParse) :
    Follows ⟨0, true, false, none, none⟩ rcvNum checksum written p card ⟨true, p, written, card⟩ := by
  constructor <;> simp [indexed]

theorem follows_failed (tck : Bool) (p : AtrParse) :
    Follows ⟨0, false, tck, none, none⟩ rcvNum checksum written p card ⟨false, p, written, card⟩ := by
  constructor <;> simp [indexed]

/-- The historical bytes are counted down, and the check character follows where one is due. -/
theorem follows_history (card : List UInt8) :
    ∀ (rcvNum checksum : UInt8) (written : List (UInt8 × UInt8)) (c : UInt8) (p : AtrParse) (k : ℕ),
      (atrCharacterParse c p).state = .parseHistoryBytes →
      (atrCharacterParse c p).historyBytes.toNat = k →
      Follows (announcedHistory k (atrCharacterParse c p).driver.profile.otherIndicated) rcvNum checksum written
        (atrCharacterParse c p) card (receiveCharacters rcvNum checksum written c p card) := by
  induction card with
  | nil =>
    intro rcvNum checksum written c p k hstate hk
    rw [receiveCharacters_nil (by simp [hstate]) (by simp [hstate])]
    constructor <;> simp [indexed, announcedHistory, AtrParse.setState]
  | cons d card ih =>
    intro rcvNum checksum written c p k hstate hk
    rw [receiveCharacters_cons (by simp [hstate]) (by simp [hstate]) (by simp [hstate])]
    generalize atrCharacterParse c p = q at hstate hk
    by_cases hone : k ≤ 1
    · obtain ⟨hnext, hother, hkeeps⟩ := parse_history_last (c := d) hstate (hk.trans_le hone)
      cases htck : q.driver.profile.otherIndicated with
      | true =>
        rw [htck, if_pos rfl] at hnext
        have hcons : announcedHistory k true = Announced.cons none none ⟨1, true, true, none, none⟩ := by
          simp [announcedHistory, Announced.cons, Nat.max_eq_right hone]
        rw [hcons]
        exact (follows_tck hnext true rfl).cons hkeeps
      | false =>
        rw [htck, if_neg Bool.false_ne_true] at hnext
        have hcons : announcedHistory k false = Announced.cons none none ⟨0, true, false, none, none⟩ := by
          simp [announcedHistory, Announced.cons, Nat.max_eq_right hone]
        rw [receiveCharacters_success hnext, hcons]
        exact (follows_done _).cons hkeeps
    · obtain ⟨hmore, hcount⟩ := parse_history_more (c := d) hstate (hk ▸ Nat.lt_of_not_le hone)
      have hrest := ih (rcvNum + 1) (checksum ^^^ d) (written ++ [(rcvNum + 1, d)]) d q (k - 1)
        (by rw [hmore]; exact hstate) (by rw [hmore, ← hk]; exact hcount)
      have hkeeps : Keeps none none q (atrCharacterParse d q) := by
        rw [hmore]
        exact ⟨rfl, rfl, rfl, rfl, rfl⟩
      have hcons : announcedHistory k q.driver.profile.otherIndicated =
          (announcedHistory (k - 1) (atrCharacterParse d q).driver.profile.otherIndicated).cons none none := by
        rw [hmore]
        simp only [announcedHistory, Announced.cons, Option.or_none]
        congr 1
        omega
      rw [hcons]
      exact hrest.cons hkeeps

theorem Level.state_ne_final (l : Level) (s : Slot) :
    l.state s ≠ .success ∧ l.state s ≠ .failure ∧ l.state s ≠ .parseTCK := by
  cases l <;> cases s <;> decide

/-- The parser takes the announced characters, whatever the card sends. -/
theorem follows_announced (card : List UInt8) :
    ∀ (l : Level) (pending : List Slot) (rcvNum checksum : UInt8) (written : List (UInt8 × UInt8)) (c : UInt8)
      (p : AtrParse) (k : ℕ), AtLevel l pending (atrCharacterParse c p) →
      (atrCharacterParse c p).historyBytes.toNat = k →
      Follows (announced l pending k (atrCharacterParse c p).driver.profile.otherIndicated card) rcvNum checksum
        written (atrCharacterParse c p) card (receiveCharacters rcvNum checksum written c p card) := by
  induction card with
  | nil =>
    intro l pending rcvNum checksum written c p k hlevel hk
    cases pending with
    | nil =>
      rw [announced]
      exact follows_history [] rcvNum checksum written c p k hlevel.state hk
    | cons s pending =>
      have hstate : (atrCharacterParse c p).state = l.state s := hlevel.state
      obtain ⟨hs, hf, -⟩ := l.state_ne_final s
      rw [receiveCharacters_nil (hstate ▸ hs) (hstate ▸ hf), announced]
      constructor <;> simp [indexed, AtrParse.setState]
  | cons d card ih =>
    intro l pending rcvNum checksum written c p k hlevel hk
    cases pending with
    | nil =>
      rw [announced]
      exact follows_history (d :: card) rcvNum checksum written c p k hlevel.state hk
    | cons s pending =>
      have hstate : (atrCharacterParse c p).state = l.state s := hlevel.state
      obtain ⟨hs, hf, ht⟩ := l.state_ne_final s
      rw [receiveCharacters_cons (hstate ▸ hs) (hstate ▸ hf) (hstate ▸ ht), announced]
      generalize atrCharacterParse c p = q at hlevel hk
      split_ifs with hbad htd
      · obtain ⟨rfl, rfl, hbad⟩ := hbad
        obtain ⟨hfail, hkeeps, hother⟩ := parse_unsupported hlevel hbad
        rw [receiveCharacters_failure hfail]
        exact (follows_failed _ _).cons hkeeps
      · subst htd
        obtain ⟨hnext, hkeeps, hhistory, hother⟩ := parse_td (c := d) hlevel
        have hrest := ih l.next _ (rcvNum + 1) (checksum ^^^ d) (written ++ [(rcvNum + 1, d)]) d q k hnext
          (hhistory ▸ hk)
        rw [hother] at hrest
        exact hrest.cons hkeeps
      · have hgood : l = .first → s = .ta → Supported d := by
          intro hl hta
          by_contra hd
          exact hbad ⟨hl, hta, hd⟩
        obtain ⟨hnext, hkeeps, hhistory, hother⟩ := parse_slot (c := d) hlevel htd hgood
        have hrest := ih l _ (rcvNum + 1) (checksum ^^^ d) (written ++ [(rcvNum + 1, d)]) d q k hnext
          (hhistory ▸ hk)
        rw [hother] at hrest
        exact hrest.cons hkeeps

/-- What the characters after the initial one announce. -/
def announcedAtr : List UInt8 → Announced
  | [] => ⟨1, true, false, none, none⟩
  | t0 :: card => (announced .first (slots (highNibble t0)) (lowNibble t0).toNat false card).cons none none

theorem parse_t0 (h : p.state = .parseT0) :
    AtLevel .first (slots (highNibble c)) (atrCharacterParse c p) ∧ Keeps none none p (atrCharacterParse c p) ∧
      (atrCharacterParse c p).historyBytes = lowNibble c ∧
      (atrCharacterParse c p).driver.profile.otherIndicated = p.driver.profile.otherIndicated := by
  obtain ⟨n, hn⟩ := exists_highNibble c
  have hbase : switchNextState .parseT0 (highNibble c) = Level.first.pendingState (slots (highNibble c)) := by
    rw [hn]
    exact switchNextState_base .first n
  have heq : atrCharacterParse c p =
      ({ p with tBitmap := highNibble c, historyBytes := lowNibble c } : AtrParse).setState
        (switchNextState .parseT0 (highNibble c)) := by
    simp only [atrCharacterParse, h]
    simp only [AtrParse.switchNext, AtrParse.state] at h ⊢
    rw [h]
  rw [heq]
  exact ⟨⟨hbase, by simp, ⟨n, hn⟩⟩, ⟨rfl, rfl, rfl, rfl, rfl⟩, rfl, rfl⟩

/-- After the initial character the parser takes what the card announces. -/
theorem follows_atr {s : SimDriver} (hs : s.profile.otherIndicated = false) (card : List UInt8) :
    Follows (announcedAtr card) 0 0 [(0, 0x3B)] ⟨s, 0, 0⟩ card
      (receiveCharacters 0 0 [(0, 0x3B)] 0x3B (AtrParse.setState ⟨s, 0, 0⟩ .parseTS) card) := by
  have hstate : (atrCharacterParse 0x3B (AtrParse.setState ⟨s, 0, 0⟩ .parseTS)).state = .parseT0 := rfl
  have hother : (atrCharacterParse 0x3B (AtrParse.setState ⟨s, 0, 0⟩ .parseTS)).driver.profile.otherIndicated =
      false := hs
  have hkept : Keeps none none ⟨s, 0, 0⟩ (atrCharacterParse 0x3B (AtrParse.setState ⟨s, 0, 0⟩ .parseTS)) :=
    ⟨rfl, rfl, rfl, rfl, rfl⟩
  cases card with
  | nil =>
    rw [receiveCharacters_nil (by simp [hstate]) (by simp [hstate])]
    constructor <;> simp [announcedAtr, indexed, AtrParse.setState, atrCharacterParse, AtrParse.state]
  | cons t0 card =>
    rw [receiveCharacters_cons (by simp [hstate]) (by simp [hstate]) (by simp [hstate]), announcedAtr]
    generalize atrCharacterParse 0x3B (AtrParse.setState ⟨s, 0, 0⟩ .parseTS) = q at hstate hother hkept
    obtain ⟨hlevel, hkeeps, hhistory, hnone⟩ := parse_t0 (c := t0) hstate
    have hrest := follows_announced card .first _ (0 + 1) (0 ^^^ t0) ([(0, 0x3B)] ++ [(0 + 1, t0)]) t0 q
      (lowNibble t0).toNat hlevel (by rw [hhistory])
    rw [hnone, hother] at hrest
    obtain ⟨hta1, hfi, hdi, hta2, hproc⟩ := hkept
    obtain ⟨hta1', hfi', hdi', hta2', hproc'⟩ := hkeeps
    exact hrest.cons ⟨hta1'.trans hta1, hfi'.trans hfi, hdi'.trans hdi, hta2'.trans hta2, hproc'.trans hproc⟩

end NbiotXY1100.SimAtr
