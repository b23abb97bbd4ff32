import NbiotXY1100.SimAtr

/-! # Reception of an answer to reset

The shape of a well-formed answer to reset, and when `ATR_Receive` takes exactly its bytes.
The parser counts historical bytes in the state in which it looks for their end, so it takes
one even if none is announced. -/
namespace NbiotXY1100.SimAtrReception
open SimCard SimAtr

/-- The interface bytes behind one format byte, except the next format byte. -/
structure InterfaceBytes where
  ta : Option UInt8
  tb : Option UInt8
  tc : Option UInt8
  deriving DecidableEq, Repr

/-- A well-formed answer to reset. Every later level comes with the protocol that the format
byte before it announces. -/
structure Atr where
  first : InterfaceBytes
  later : List (Fin 16 × InterfaceBytes)
  historical : List UInt8
  tck : Option UInt8
  historical_le : historical.length ≤ 15
  tck_isSome : tck.isSome = later.any fun level => level.1 ≠ 0
  deriving DecidableEq, Repr

def formatByte (bitmap : UInt8) (low : ℕ) : UInt8 := bitmap <<< 4 ||| UInt8.ofNat low

def formatNibble (g : InterfaceBytes) (more : Bool) : UInt8 :=
  (if g.ta.isSome then 1 else 0) ||| (if g.tb.isSome then 2 else 0) ||| (if g.tc.isSome then 4 else 0) |||
    (if more then 8 else 0)

/-- The interface bytes from one level on, each level closed by the format byte of the next. -/
def interfaceBytes (g : InterfaceBytes) : List (Fin 16 × InterfaceBytes) → List UInt8
  | [] => g.ta.toList ++ (g.tb.toList ++ g.tc.toList)
  | (t, h) :: later =>
    g.ta.toList ++ (g.tb.toList ++ (g.tc.toList ++
      formatByte (formatNibble h !later.isEmpty) t :: interfaceBytes h later))

namespace Atr

def interface (a : Atr) : List UInt8 := interfaceBytes a.first a.later

def t0 (a : Atr) : UInt8 := formatByte (formatNibble a.first !a.later.isEmpty) a.historical.length

/-- The characters after the initial one. -/
def afterTS (a : Atr) : List UInt8 := a.t0 :: (a.interface ++ (a.historical ++ a.tck.toList))

def bytes (a : Atr) : List UInt8 := 0x3B :: a.afterTS

def ratesSupported (a : Atr) : Prop := ∀ ta1 ∈ a.first.ta, Supported ta1

instance (a : Atr) : Decidable a.ratesSupported := inferInstanceAs (Decidable (∀ _ ∈ _, _))

end Atr

/-- The protocols that the parser notes; the first format byte's T=15 is none of them. -/
def notesOther (l : Level) : List (Fin 16 × InterfaceBytes) → Bool
  | [] => false
  | (t, _) :: later => (t ≠ 0 && !(l = .first && t = 15)) || notesOther l.next later

theorem highNibble_formatByte (n m : Fin 16) :
    highNibble (formatByte (UInt8.ofNat n.val) m) = UInt8.ofNat n.val := by
  revert n m
  decide

theorem lowNibble_formatByte (n m : Fin 16) : lowNibble (formatByte (UInt8.ofNat n.val) m) = UInt8.ofNat m.val := by
  revert n m
  decide

theorem exists_formatNibble (g : InterfaceBytes) (more : Bool) :
    ∃ n : Fin 16, formatNibble g more = UInt8.ofNat n.val := by
  simp only [formatNibble]
  cases g.ta.isSome <;> cases g.tb.isSome <;> cases g.tc.isSome <;> cases more <;> decide

theorem slots_formatNibble (g : InterfaceBytes) (more : Bool) :
    slots (formatNibble g more) =
      (if g.ta.isSome then [.ta] else []) ++ (if g.tb.isSome then [.tb] else []) ++
        (if g.tc.isSome then [.tc] else []) ++ (if more then [.td] else []) := by
  simp only [formatNibble]
  cases g.ta.isSome <;> cases g.tb.isSome <;> cases g.tc.isSome <;> cases more <;> decide

theorem announcesOther_formatByte (l : Level) (g : InterfaceBytes) (more : Bool) (t : Fin 16) :
    announcesOther l (formatByte (formatNibble g more) t) = (t ≠ 0 && !(l = .first && t = 15)) := by
  obtain ⟨n, hn⟩ := exists_formatNibble g more
  rw [announcesOther, hn, lowNibble_formatByte]
  cases l <;> revert t <;> decide

/-- `n` characters more in front of what is announced. -/
def behind (n : ℕ) (ta1 ta2 : Option UInt8) (a : Announced) : Announced :=
  { a with length := a.length + n, ta1 := a.ta1.or ta1, ta2 := a.ta2.or ta2 }

theorem behind_behind (n m : ℕ) (ta1 ta2 ta1' ta2' : Option UInt8) (a : Announced) :
    behind m ta1' ta2' (behind n ta1 ta2 a) = behind (n + m) (ta1.or ta1') (ta2.or ta2') a := by
  simp [behind, Option.or_assoc, Nat.add_assoc]

theorem cons_eq_behind (ta1 ta2 : Option UInt8) (a : Announced) : a.cons ta1 ta2 = behind 1 ta1 ta2 a := rfl

/-- The announcement over one optional interface byte that is no format byte. -/
theorem announced_optional (l : Level) (s : Slot) (hs : s ≠ .td) (byte : Option UInt8)
    (hgood : l = .first → s = .ta → ∀ c ∈ byte, Supported c) (pending : List Slot) (k : ℕ) (tck : Bool)
    (card : List UInt8) :
    announced l ((if byte.isSome then [s] else []) ++ pending) k tck (byte.toList ++ card) =
      behind byte.toList.length (byte.bind (taOf .first l s)) (byte.bind (taOf .second l s))
        (announced l pending k tck card) := by
  cases byte with
  | none => simp [behind]
  | some c =>
    have hbad : ¬(l = .first ∧ s = .ta ∧ ¬Supported c) := by
      rintro ⟨hl, hta, hc⟩
      exact hc (hgood hl hta c rfl)
    simp [announced, hbad, hs, cons_eq_behind]

/-- The second level's `TA` among the levels from here on. -/
def secondTA (l : Level) (g : InterfaceBytes) (later : List (Fin 16 × InterfaceBytes)) : Option UInt8 :=
  match l with
  | .first => later.head?.bind (·.2.ta)
  | .second => g.ta
  | .later => none

/-- The interface bytes of a level announce what comes behind them, with their `TA`. -/
theorem announced_group (l : Level) (g : InterfaceBytes) (hgood : l = .first → ∀ c ∈ g.ta, Supported c)
    (pending : List Slot) (k : ℕ) (tck : Bool) (card : List UInt8) :
    announced l ((if g.ta.isSome then [.ta] else []) ++ (if g.tb.isSome then [.tb] else []) ++
      (if g.tc.isSome then [.tc] else []) ++ pending) k tck
        (g.ta.toList ++ (g.tb.toList ++ (g.tc.toList ++ card))) =
      behind (g.tc.toList.length + g.tb.toList.length + g.ta.toList.length) (if l = .first then g.ta else none)
        (if l = .second then g.ta else none) (announced l pending k tck card) := by
  have hta : ∀ level, (g.ta.bind (taOf level l .ta)) = if l = level then g.ta else none := by
    intro level
    cases g.ta <;> simp [taOf]
  have hnone : ∀ level s (byte : Option UInt8), s ≠ Slot.ta → byte.bind (taOf level l s) = none := by
    intro level s byte hs
    cases byte <;> simp [taOf, hs]
  rw [List.append_assoc, List.append_assoc, announced_optional l .ta (by decide) _ (fun hl _ => hgood hl),
    announced_optional l .tb (by decide) _ (by simp), announced_optional l .tc (by decide) _ (by simp),
    behind_behind, behind_behind, hta, hta, hnone _ .tb _ (by decide), hnone _ .tb _ (by decide),
    hnone _ .tc _ (by decide), hnone _ .tc _ (by decide)]
  simp [Nat.add_assoc]

/-- The interface bytes announce exactly themselves, the historical bytes and, if the parser
notes another protocol, a check character. -/
theorem announced_interfaceBytes (later : List (Fin 16 × InterfaceBytes)) :
    ∀ (l : Level) (g : InterfaceBytes) (k : ℕ) (tck : Bool) (card : List UInt8),
      (l = .first → ∀ c ∈ g.ta, Supported c) →
      announced l (slots (formatNibble g !later.isEmpty)) k tck (interfaceBytes g later ++ card) =
        behind (interfaceBytes g later).length (if l = .first then g.ta else none) (secondTA l g later)
          (announcedHistory k (tck || notesOther l later)) := by
  induction later with
  | nil =>
    intro l g k tck card hgood
    have hbytes : interfaceBytes g [] ++ card = g.ta.toList ++ (g.tb.toList ++ (g.tc.toList ++ card)) := by
      simp [interfaceBytes]
    have hlength : (interfaceBytes g []).length = g.tc.toList.length + g.tb.toList.length + g.ta.toList.length := by
      simp [interfaceBytes]
      omega
    have hsecond : secondTA l g [] = if l = .second then g.ta else none := by cases l <;> rfl
    rw [slots_formatNibble, hbytes, announced_group l g hgood, hlength, hsecond]
    simp [announced, notesOther]
  | cons level later ih =>
    intro l g k tck card hgood
    obtain ⟨t, h⟩ := level
    have hbytes : interfaceBytes g ((t, h) :: later) ++ card = g.ta.toList ++ (g.tb.toList ++ (g.tc.toList ++
        (formatByte (formatNibble h !later.isEmpty) t :: (interfaceBytes h later ++ card)))) := by
      simp [interfaceBytes]
    have hlength : (interfaceBytes g ((t, h) :: later)).length =
        (interfaceBytes h later).length + 1 + (g.tc.toList.length + g.tb.toList.length + g.ta.toList.length) := by
      simp [interfaceBytes]
      omega
    have hnibble : highNibble (formatByte (formatNibble h !later.isEmpty) t) = formatNibble h !later.isEmpty := by
      obtain ⟨n, hn⟩ := exists_formatNibble h !later.isEmpty
      rw [hn, highNibble_formatByte]
    have hnext : l.next ≠ .first := by cases l <;> decide
    have hsecond : (secondTA l.next h later).or (if l = .second then g.ta else none) =
        secondTA l g ((t, h) :: later) := by
      cases l <;> simp [secondTA, Level.next]
    have hrest := ih l.next h k (tck || announcesOther l (formatByte (formatNibble h !later.isEmpty) t)) card
      (fun hl => absurd hl hnext)
    rw [slots_formatNibble, hbytes, announced_group l g hgood]
    simp only [List.isEmpty_cons, Bool.not_false, if_true, announced, reduceCtorEq, false_and, and_false, if_false]
    rw [hnibble, hrest, cons_eq_behind, behind_behind, behind_behind, hlength, if_neg hnext,
      announcesOther_formatByte]
    simp only [Option.none_or, hsecond, notesOther, Bool.or_assoc, Nat.add_assoc]

namespace Atr

/-- The parser takes the check character of the answer as such. -/
def checked (a : Atr) : Bool := notesOther .first a.later

/-- The exclusive or of the bytes after the initial character. -/
def parity (a : Atr) : UInt8 := xorFrom 0 a.afterTS

end Atr

theorem notesOther_le (l : Level) (later : List (Fin 16 × InterfaceBytes)) (h : notesOther l later = true) :
    (later.any fun level => level.1 ≠ 0) = true := by
  induction later generalizing l with
  | nil => simp [notesOther] at h
  | cons level later ih =>
    obtain ⟨t, g⟩ := level
    simp only [notesOther, Bool.or_eq_true, Bool.and_eq_true] at h
    simp only [List.any_cons, Bool.or_eq_true]
    exact h.imp And.left (ih l.next)

theorem nibbles_t0 (a : Atr) :
    highNibble a.t0 = formatNibble a.first !a.later.isEmpty ∧ (lowNibble a.t0).toNat = a.historical.length := by
  obtain ⟨n, hn⟩ := exists_formatNibble a.first !a.later.isEmpty
  have hk := Nat.lt_succ_of_le a.historical_le
  rw [Atr.t0, hn]
  constructor
  · exact highNibble_formatByte n ⟨a.historical.length, hk⟩
  · rw [lowNibble_formatByte n ⟨a.historical.length, hk⟩, UInt8.toNat_ofNat_of_lt']
    exact hk.trans (by decide)

theorem announcedAtr_supported (a : Atr) (h : a.ratesSupported) (rest : List UInt8) :
    announcedAtr (a.afterTS ++ rest) =
      behind (a.interface.length + 1) a.first.ta (secondTA .first a.first a.later)
        (announcedHistory a.historical.length a.checked) := by
  obtain ⟨hhigh, hlow⟩ := nibbles_t0 a
  have hbytes : a.afterTS ++ rest = a.t0 :: (interfaceBytes a.first a.later ++
      (a.historical ++ a.tck.toList ++ rest)) := by
    simp [Atr.afterTS, Atr.interface]
  rw [hbytes, announcedAtr, hhigh, hlow, announced_interfaceBytes a.later .first a.first _ false _ (fun _ => h),
    cons_eq_behind, behind_behind, if_pos rfl]
  simp [Atr.interface, Atr.checked]

/-- Unsupported rates in `TA1` end the reception behind it. -/
theorem announcedAtr_unsupported (a : Atr) (h : ¬a.ratesSupported) (rest : List UInt8) :
    announcedAtr (a.afterTS ++ rest) = ⟨2, false, false, a.first.ta, none⟩ ∧ 2 ≤ a.afterTS.length := by
  obtain ⟨hhigh, -⟩ := nibbles_t0 a
  obtain ⟨c, hc, hbad⟩ : ∃ c, a.first.ta = some c ∧ ¬Supported c := by
    simpa [Atr.ratesSupported] using h
  obtain ⟨tail, htail⟩ : ∃ tail, a.interface = c :: tail := by
    rw [Atr.interface]
    cases a.later with
    | nil => exact ⟨_, by rw [interfaceBytes, hc]; rfl⟩
    | cons level later => exact ⟨_, by rw [interfaceBytes, hc]; rfl⟩
  obtain ⟨pending, hpending⟩ : ∃ pending, slots (highNibble a.t0) = .ta :: pending := by
    rw [hhigh, slots_formatNibble, hc]
    exact ⟨_, rfl⟩
  constructor
  · simp [Atr.afterTS, htail, announcedAtr, hpending, announced, hbad, Announced.cons, hc]
  · simp [Atr.afterTS, htail]

/-- No initial character, of either convention. -/
def dirty (c : UInt8) : Bool := c ≠ 0x3B && c ≠ 0x3

def afterInitial : List UInt8 → Option (List UInt8)
  | [] => none
  | c :: card => if c = 0x3B then some card else none

/-- The characters behind the initial one, if at most fifteen dirty ones come before it. -/
def behindTS (card : List UInt8) : Option (List UInt8) :=
  if (card.takeWhile dirty).length ≤ 15 then afterInitial (card.dropWhile dirty) else none

theorem receiveTS_eq (card : List UInt8) (n : ℕ) (hn : n ≤ 15) :
    (receiveTS n card).1 =
      if n + (card.takeWhile dirty).length ≤ 15 then afterInitial (card.dropWhile dirty) else none := by
  induction card generalizing n with
  | nil => simp [receiveTS, afterInitial, hn]
  | cons c card ih =>
    by_cases hts : c = 0x3B
    · subst hts
      simp [receiveTS, dirty, afterInitial, hn]
    · by_cases hinverse : c = 0x3
      · subst hinverse
        simp [receiveTS, dirty, afterInitial]
      · have hdirty : dirty c = true := by simp [dirty, hts, hinverse]
        rw [receiveTS, if_neg hts, if_neg hinverse, List.takeWhile_cons_of_pos hdirty,
          List.dropWhile_cons_of_pos hdirty, List.length_cons]
        by_cases hmore : n + 1 > 15
        · rw [if_pos hmore, if_neg (by omega)]
        · rw [if_neg hmore, ih (n + 1) (by omega), Nat.add_assoc, Nat.add_comm 1]

/-- Consecutive indices stay below the bound exactly if there is room for all of them. -/
theorem indexed_lt (bytes : List UInt8) (i : UInt8) (h : i.toNat ≤ maxAtrCharacterLen) :
    (∀ w ∈ indexed i bytes, w.1.toNat < maxAtrCharacterLen) ↔ i.toNat + bytes.length ≤ maxAtrCharacterLen := by
  induction bytes generalizing i with
  | nil => simpa [indexed] using h
  | cons c bytes ih =>
    simp only [indexed, List.forall_mem_cons, List.length_cons]
    by_cases hlt : i.toNat < maxAtrCharacterLen
    · have hsucc : (i + 1).toNat = i.toNat + 1 := by
        rw [UInt8.toNat_add]
        exact Nat.mod_eq_of_lt (by simp only [maxAtrCharacterLen] at hlt; change i.toNat + 1 < 256; omega)
      rw [ih (i + 1) (by omega), hsucc]
      omega
    · omega

/-- What the card announces, as far as it is sent, leaves room in the buffer. -/
def StaysInBuffer (card : List UInt8) : Prop :=
  ∀ rest ∈ behindTS card, 1 + min (announcedAtr rest).length rest.length ≤ maxAtrCharacterLen

theorem atrReceive_of_behindTS {card rest : List UInt8} (h : behindTS card = some rest) (s : SimDriver) :
    atrReceive card s =
      receiveCharacters 0 0 [(0, 0x3B)] 0x3B (AtrParse.setState ⟨s, 0, 0⟩ .parseTS) rest := by
  have hts : (receiveTS 0 card).1 = some rest := by
    rw [receiveTS_eq card 0 (by decide), Nat.zero_add]
    exact h
  rcases hpair : receiveTS 0 card with ⟨found, unread⟩
  rw [hpair] at hts
  obtain rfl : found = some rest := hts
  rw [atrReceive, hpair]

theorem atrReceive_of_none {card : List UInt8} (h : behindTS card = none) (s : SimDriver) :
    (atrReceive card s).written = [] := by
  have hts : (receiveTS 0 card).1 = none := by
    rw [receiveTS_eq card 0 (by decide), Nat.zero_add]
    exact h
  rcases hpair : receiveTS 0 card with ⟨found, unread⟩
  rw [hpair] at hts
  obtain rfl : found = none := hts
  rw [atrReceive, hpair]

theorem follows_of_behindTS {card rest : List UInt8} (h : behindTS card = some rest) {s : SimDriver}
    (hs : s.profile.otherIndicated = false) :
    Follows (announcedAtr rest) 0 0 [(0, 0x3B)] ⟨s, 0, 0⟩ rest (atrReceive card s) := by
  rw [atrReceive_of_behindTS h]
  exact follows_atr hs rest

@[simp] theorem otherIndicated_initSimCardItem (s : SimDriver) :
    (initSimCardItem s).profile.otherIndicated = false := by
  simp [SimCardProfile.otherIndicated, initSimCardItem]

theorem written_lt_iff (s : SimDriver) (card : List UInt8) :
    (∀ w ∈ (atrReceive card (initSimCardItem s)).written, w.1.toNat < maxAtrCharacterLen) ↔
      StaysInBuffer card := by
  cases h : behindTS card with
  | none => simp [atrReceive_of_none h, StaysInBuffer, h]
  | some rest =>
    have hroom := indexed_lt (0x3B :: rest.take (announcedAtr rest).length) 0 (by decide)
    have hwritten : (atrReceive card (initSimCardItem s)).written =
        indexed 0 (0x3B :: rest.take (announcedAtr rest).length) := (follows_of_behindTS h (otherIndicated_initSimCardItem s)).written
    rw [hwritten, hroom]
    simp only [StaysInBuffer, h, Option.mem_some_iff, forall_eq', List.length_cons, List.length_take]
    change 0 + _ ≤ _ ↔ _
    omega

/-- The reception takes exactly the bytes of the answer, whatever follows, and succeeds if the
rates are supported and the check character, where there is one, fits. -/
def ReceivesExactly (a : Atr) : Prop :=
  ∀ (s : SimDriver) (rest : List UInt8),
    (atrReceive (a.bytes ++ rest) (initSimCardItem s)).written = indexed 0 a.bytes ∧
    (atrReceive (a.bytes ++ rest) (initSimCardItem s)).unread = rest ∧
    ((atrReceive (a.bytes ++ rest) (initSimCardItem s)).result = true ↔
      a.ratesSupported ∧ (a.tck.isSome = true → a.parity = 0))

theorem follows_bytes (a : Atr) {s : SimDriver} (hs : s.profile.otherIndicated = false) (rest : List UInt8) :
    Follows (announcedAtr (a.afterTS ++ rest)) 0 0 [(0, 0x3B)] ⟨s, 0, 0⟩ (a.afterTS ++ rest)
      (atrReceive (a.bytes ++ rest) s) := by
  refine follows_of_behindTS ?_ hs
  simp [behindTS, Atr.bytes, dirty, afterInitial]

/-- Unsupported rates end the reception early, unless nothing comes behind them. With supported
rates there has to be a historical byte, and the check character has to be noted. The two
other cases are accidents: a check character that is taken as the historical byte. -/
def Takeable (a : Atr) : Prop :=
  if ¬a.ratesSupported then a.bytes.length = 3
  else if a.historical = [] then a.checked = false ∧ a.tck.isSome = true ∧ a.parity = 0
  else a.checked = a.tck.isSome

/-- One character behind the answer tells whether all of it, and no more, was taken. -/
theorem length_of_receivesExactly {a : Atr} (h : ReceivesExactly a) (s : SimDriver) :
    (announcedAtr (a.afterTS ++ [0])).length = a.afterTS.length := by
  have hunread := (follows_bytes a (otherIndicated_initSimCardItem s) [0]).unread
  rw [(h s [0]).2.1] at hunread
  have hlength := congrArg List.length hunread
  simp only [List.length_drop, List.length_append, List.length_singleton] at hlength
  omega

/-- The reception of as many characters as the answer has. -/
theorem atrReceive_of_length {a : Atr} {rest : List UInt8}
    (h : (announcedAtr (a.afterTS ++ rest)).length = a.afterTS.length) (s : SimDriver) :
    (atrReceive (a.bytes ++ rest) (initSimCardItem s)).written = indexed 0 a.bytes ∧
    (atrReceive (a.bytes ++ rest) (initSimCardItem s)).unread = rest ∧
    ((atrReceive (a.bytes ++ rest) (initSimCardItem s)).result = true ↔
      (announcedAtr (a.afterTS ++ rest)).supported = true ∧
        ((announcedAtr (a.afterTS ++ rest)).tck = true → a.parity = 0)) := by
  have hfollows := follows_bytes a (otherIndicated_initSimCardItem s) rest
  refine ⟨?_, ?_, ?_⟩
  · rw [hfollows.written, h, List.take_left]
    rfl
  · rw [hfollows.unread, h, List.drop_left]
  · rw [hfollows.result, h, List.take_left]
    simp [Atr.parity]

theorem bytes_length (a : Atr) : a.bytes.length = a.afterTS.length + 1 := rfl

theorem tck_isSome_of_checked {a : Atr} (h : a.checked = true) : a.tck.isSome = true := by
  rw [a.tck_isSome]
  exact notesOther_le .first a.later h

theorem receivesExactly_unsupported {a : Atr} (hrates : ¬a.ratesSupported) :
    ReceivesExactly a ↔ a.bytes.length = 3 := by
  constructor
  · intro h
    have hlength := length_of_receivesExactly h ⟨⟨0, 0, 0, 0, 0, 0, 0⟩, .none, .none, .none, 0⟩
    rw [(announcedAtr_unsupported a hrates [0]).1] at hlength
    rw [bytes_length, ← hlength]
  · intro h s rest
    have hannounced := (announcedAtr_unsupported a hrates rest).1
    have hlength : (announcedAtr (a.afterTS ++ rest)).length = a.afterTS.length := by
      rw [hannounced]
      exact (Nat.succ.inj h).symm
    obtain ⟨hwritten, hunread, hresult⟩ := atrReceive_of_length hlength s
    refine ⟨hwritten, hunread, hresult.trans ?_⟩
    simp [hannounced, hrates]

theorem length_supported {a : Atr} (hrates : a.ratesSupported) (rest : List UInt8) :
    (announcedAtr (a.afterTS ++ rest)).length = a.afterTS.length ↔
      max a.historical.length 1 + (if a.checked then 1 else 0) = a.historical.length + a.tck.toList.length := by
  rw [announcedAtr_supported a hrates]
  simp only [behind, announcedHistory, Atr.afterTS, List.length_cons, List.length_append]
  omega

theorem receivesExactly_supported {a : Atr} (hrates : a.ratesSupported) :
    ReceivesExactly a ↔
      max a.historical.length 1 + (if a.checked then 1 else 0) = a.historical.length + a.tck.toList.length ∧
        ((a.checked = true → a.parity = 0) ↔ (a.tck.isSome = true → a.parity = 0)) := by
  constructor
  · intro h
    have hlength := length_of_receivesExactly h ⟨⟨0, 0, 0, 0, 0, 0, 0⟩, .none, .none, .none, 0⟩
    have hresult := (h ⟨⟨0, 0, 0, 0, 0, 0, 0⟩, .none, .none, .none, 0⟩ [0]).2.2
    rw [(atrReceive_of_length hlength _).2.2, announcedAtr_supported a hrates] at hresult
    refine ⟨(length_supported hrates [0]).mp hlength, ?_⟩
    simpa [behind, announcedHistory, hrates] using hresult
  · rintro ⟨hlength, hparity⟩ s rest
    obtain ⟨hwritten, hunread, hresult⟩ := atrReceive_of_length ((length_supported hrates rest).mpr hlength) s
    refine ⟨hwritten, hunread, hresult.trans ?_⟩
    rw [announcedAtr_supported a hrates]
    simpa [behind, announcedHistory, hrates] using hparity

theorem receivesExactly_iff (a : Atr) : ReceivesExactly a ↔ Takeable a := by
  by_cases hrates : a.ratesSupported
  · rw [receivesExactly_supported hrates, Takeable, if_neg (not_not.mpr hrates)]
    have hchecked := tck_isSome_of_checked (a := a)
    have hmax : a.historical ≠ [] → max a.historical.length 1 = a.historical.length := by
      intro hne
      exact Nat.max_eq_left (List.length_pos_iff.mpr hne)
    by_cases hnil : a.historical = []
    · cases hc : a.checked <;> cases ht : a.tck <;> simp [hnil, hc, ht] at hchecked ⊢
    · rw [hmax hnil, if_neg hnil]
      cases hc : a.checked <;> cases ht : a.tck <;> simp [hc, ht] at hchecked ⊢
  · rw [receivesExactly_unsupported hrates, Takeable, if_pos hrates]

/-- The buffer is kept to exactly by the cards that announce no more than it holds, and exactly
the takeable answers are received as they are. -/
theorem atr_reception_iff (s : SimDriver) (card : List UInt8) (a : Atr) :
    ((∀ w ∈ (atrReceive card (initSimCardItem s)).written, w.1.toNat < maxAtrCharacterLen) ↔
      StaysInBuffer card) ∧
    (ReceivesExactly a ↔ Takeable a) := by
  constructor
  · exact written_lt_iff s card
  · exact receivesExactly_iff a

theorem plainTck : (none : Option UInt8).isSome = ([] : List (Fin 16 × InterfaceBytes)).any fun level => level.1 ≠ 0 := rfl

/-- An answer without interface and historical bytes. -/
private def bareAtr : Atr := ⟨⟨none, none, none⟩, [], [], none, by decide, plainTck⟩

/-- The driver waits in vain for a historical byte of the bare answer. -/
theorem not_atr_reception :
    ¬((∀ (s : SimDriver) (card : List UInt8),
      ∀ w ∈ (atrReceive card (initSimCardItem s)).written, w.1.toNat < maxAtrCharacterLen) ∧
    ∀ a : Atr, a.bytes.length ≤ 33 → ReceivesExactly a) := by
  rintro ⟨-, h⟩
  have hbare := (h bareAtr (by decide) ⟨⟨0, 0, 0, 0, 0, 0, 0⟩, .none, .none, .none, 0⟩ []).2.2
  revert hbare
  decide +kernel

end NbiotXY1100.SimAtrReception
