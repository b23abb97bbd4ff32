import NbiotXY1100.FlashMemory

/-! # Byte buffers: copies into a buffer and little-endian words

A copy into a buffer changes a window of it. Words are stored with the low byte first. -/
namespace NbiotXY1100.ByteBuffers
open FlashMemory

variable {α : Type*}

/-- The list with the elements from `o` on replaced. -/
def splice (bs : List α) (o : Nat) (data : List α) : List α :=
  bs.take o ++ data ++ bs.drop (o + data.length)

theorem splice_length {bs data : List α} {o : Nat} (h : o + data.length ≤ bs.length) :
    (splice bs o data).length = bs.length := by
  simp only [splice, List.length_append, List.length_take, List.length_drop]
  omega

theorem splice_take_of_le {bs data : List α} {o n : Nat} (h : n ≤ o) (ho : o ≤ bs.length) :
    (splice bs o data).take n = bs.take n := by
  rw [splice, List.append_assoc, List.take_append_of_le_length (by rw [List.length_take]; omega),
    List.take_take, Nat.min_eq_left h]

theorem splice_drop_of_le {bs data : List α} {o n : Nat} (h : o + data.length ≤ n) (ho : o ≤ bs.length) :
    (splice bs o data).drop n = bs.drop n := by
  have hlen : (bs.take o ++ data).length = o + data.length := by
    rw [List.length_append, List.length_take]
    omega
  rw [splice, List.drop_append, hlen, List.drop_of_length_le (by omega), List.nil_append, List.drop_drop]
  congr 1
  omega

/-- The window itself holds the copied data. -/
theorem splice_window {bs data : List α} {o : Nat} (ho : o ≤ bs.length) :
    ((splice bs o data).drop o).take data.length = data := by
  have hlen : (bs.take o).length = o := by
    rw [List.length_take]
    omega
  rw [splice, List.append_assoc, List.drop_left' hlen, List.take_left]

/-- The first elements of a list, copied to the start. -/
theorem splice_zero_take {bs data : List α} {n : ℕ} (hn : n ≤ data.length) :
    (splice bs 0 (data.take n)).take n = data.take n := by
  have hlen : (data.take n).length = n := List.length_take_of_le hn
  have hwindow := @splice_window _ bs (data.take n) 0 (Nat.zero_le _)
  rw [List.drop_zero, hlen] at hwindow
  exact hwindow

theorem splice_take {bs data : List α} {o n : Nat} (h : o + data.length ≤ n) (hn : n ≤ bs.length) :
    (splice bs o data).take n = splice (bs.take n) o data := by
  have hlen : (bs.take o ++ data).length = o + data.length := by
    rw [List.length_append, List.length_take]
    omega
  rw [splice, splice, List.take_append, hlen, List.take_of_length_le (by omega), List.take_take, List.drop_take,
    Nat.min_eq_left (by omega)]

theorem splice_drop {bs data : List α} {o k : Nat} (hk : k + o ≤ bs.length) :
    (splice bs (k + o) data).drop k = splice (bs.drop k) o data := by
  rw [splice, splice, List.append_assoc, List.drop_append_of_le_length (by rw [List.length_take]; omega),
    List.drop_take, List.drop_drop, List.append_assoc]
  congr 3
  · omega
  · omega

/-- A copy of what the window already holds changes nothing. -/
theorem splice_same {bs data : List α} {o : Nat} (h : (bs.drop o).take data.length = data) :
    splice bs o data = bs := by
  have hsplit : bs.drop o = data ++ bs.drop (o + data.length) := by
    conv_lhs => rw [← List.take_append_drop data.length (bs.drop o), h, List.drop_drop]
  rw [splice, List.append_assoc, ← hsplit, List.take_append_drop]

/-- The elements lie in the list from `o` on. -/
def Holds (bs : List α) (o : Nat) (data : List α) : Prop := (bs.drop o).take data.length = data

theorem holds_splice {bs data : List α} {o : Nat} (ho : o ≤ bs.length) : Holds (splice bs o data) o data :=
  splice_window ho

/-- A copy that ends before the window or starts behind it leaves the window as it is. -/
theorem Holds.splice_of_disjoint {bs data other : List α} {o k : Nat} (h : Holds bs k other)
    (hlen : o + data.length ≤ bs.length) (hdisjoint : k + other.length ≤ o ∨ o + data.length ≤ k) :
    Holds (splice bs o data) k other := by
  obtain hbefore | hafter := hdisjoint
  · have hwindow : ∀ l : List α, (l.drop k).take other.length = (l.take (k + other.length)).drop k := by
      intro l
      rw [List.drop_take, Nat.add_sub_cancel_left]
    have htake : (splice bs o data).take (k + other.length) = bs.take (k + other.length) :=
      splice_take_of_le hbefore (by omega)
    rw [Holds, hwindow, htake, ← hwindow]
    exact h
  · rw [Holds, splice_drop_of_le hafter (by omega)]
    exact h

theorem holds_append {bs a b : List α} {o : Nat} :
    Holds bs o (a ++ b) ↔ Holds bs o a ∧ Holds bs (o + a.length) b := by
  simp only [Holds, List.length_append, List.take_add, List.drop_drop]
  constructor
  · intro h
    refine List.append_inj h ?_
    have hlen := congrArg List.length h
    simp only [List.length_append, List.length_take, List.length_drop] at hlen ⊢
    omega
  · rintro ⟨ha, hb⟩
    rw [ha, hb]

/-- A copy and another one right behind it are one copy. -/
theorem splice_append {bs a b : List α} {o : Nat} (h : o + a.length + b.length ≤ bs.length) :
    splice (splice bs o a) (o + a.length) b = splice bs o (a ++ b) := by
  have hlen : (bs.take o ++ a).length = o + a.length := by
    rw [List.length_append, List.length_take]
    omega
  have htake : (splice bs o a).take (o + a.length) = bs.take o ++ a := by
    rw [splice, ← hlen, List.take_left]
  have hdrop : (splice bs o a).drop (o + a.length + b.length) = bs.drop (o + (a ++ b).length) := by
    rw [splice_drop_of_le (by omega) (by omega), List.length_append, Nat.add_assoc]
  rw [splice, htake, hdrop, splice]
  simp only [List.append_assoc]

/-- `memcpy` into a block. -/
def copyIn (bs : List α) (o : Nat) (data : List α) : Option (List α) :=
  if o + data.length ≤ bs.length then some (splice bs o data) else none

/-- `memcpy` out of a block. -/
def copyOut (bs : List α) (o n : Nat) : Option (List α) :=
  if o + n ≤ bs.length then some ((bs.drop o).take n) else none

theorem Holds.length_le {bs data : List α} {o : Nat} (h : Holds bs o data) (hne : data ≠ []) :
    o + data.length ≤ bs.length := by
  have hlen := congrArg List.length h
  have hpos := List.length_pos_of_ne_nil hne
  rw [List.length_take, List.length_drop] at hlen
  omega

theorem Holds.copyOut {bs data : List α} {o : Nat} (h : Holds bs o data) (hlen : o + data.length ≤ bs.length) :
    copyOut bs o data.length = some data := by
  rw [ByteBuffers.copyOut, if_pos hlen, h]

/-- The buffers have one length and agree outside the `n` elements from `o` on. -/
structure SameOutside (bs : List α) (o n : Nat) (bs' : List α) : Prop where
  length : bs'.length = bs.length
  before : bs'.take o = bs.take o
  behind : bs'.drop (o + n) = bs.drop (o + n)

theorem SameOutside.refl (bs : List α) (o n : Nat) : SameOutside bs o n bs := ⟨rfl, rfl, rfl⟩

theorem SameOutside.trans {bs bs' bs'' : List α} {o n : Nat} (h : SameOutside bs o n bs')
    (h' : SameOutside bs' o n bs'') : SameOutside bs o n bs'' :=
  ⟨h'.length.trans h.length, h'.before.trans h.before, h'.behind.trans h.behind⟩

theorem SameOutside.mono {bs bs' : List α} {o n o' n' : Nat} (h : SameOutside bs o n bs') (ho : o' ≤ o)
    (hn : o + n ≤ o' + n') : SameOutside bs o' n' bs' := by
  refine ⟨h.length, ?_, ?_⟩
  · have htake := congrArg (List.take o') h.before
    rwa [List.take_take, List.take_take, Nat.min_eq_left ho] at htake
  · have hdrop := congrArg (List.drop (o' + n' - (o + n))) h.behind
    rwa [List.drop_drop, List.drop_drop, Nat.add_sub_cancel' hn] at hdrop

/-- What lies outside the window is kept. -/
theorem Holds.sameOutside {bs bs' data : List α} {o n k : Nat} (h : Holds bs k data) (hs : SameOutside bs o n bs')
    (hdisjoint : k + data.length ≤ o ∨ o + n ≤ k) : Holds bs' k data := by
  obtain hbefore | hbehind := hdisjoint
  · have hwindow : ∀ l : List α, (l.drop k).take data.length = (l.take (k + data.length)).drop k := by
      intro l
      rw [List.drop_take, Nat.add_sub_cancel_left]
    have htake : bs'.take (k + data.length) = bs.take (k + data.length) := by
      have hcongr := congrArg (List.take (k + data.length)) hs.before
      rwa [List.take_take, List.take_take, Nat.min_eq_left hbefore] at hcongr
    rw [Holds, hwindow, htake, ← hwindow]
    exact h
  · have hdrop : bs'.drop k = bs.drop k := by
      have hcongr := congrArg (List.drop (k - (o + n))) hs.behind
      rwa [List.drop_drop, List.drop_drop, Nat.add_sub_cancel' hbehind] at hcongr
    rw [Holds, hdrop]
    exact h

theorem copyIn_spec {bs data : List α} {o : Nat} (h : o + data.length ≤ bs.length) :
    ∃ bs', copyIn bs o data = some bs' ∧ SameOutside bs o data.length bs' ∧ Holds bs' o data :=
  ⟨splice bs o data, if_pos h,
    ⟨splice_length h, splice_take_of_le (Nat.le_refl o) (by omega), splice_drop_of_le (Nat.le_refl _) (by omega)⟩,
    holds_splice (by omega)⟩

def leBytes (w : UInt32) : List UInt8 :=
  [UInt8.ofNat w.toNat, UInt8.ofNat (w.toNat / 256), UInt8.ofNat (w.toNat / 65536),
    UInt8.ofNat (w.toNat / 16777216)]

def ofLeBytes : List UInt8 → UInt32
  | [a, b, c, d] => UInt32.ofNat (a.toNat + 256 * b.toNat + 65536 * c.toNat + 16777216 * d.toNat)
  | _ => 0

@[simp] theorem leBytes_length (w : UInt32) : (leBytes w).length = 4 := rfl

theorem ofLeBytes_leBytes (w : UInt32) : ofLeBytes (leBytes w) = w := by
  apply UInt32.toNat_inj.mp
  have hlt := w.toNat_lt
  simp only [leBytes, ofLeBytes, UInt8.toNat_ofNat', UInt32.toNat_ofNat']
  omega

/-- A 16-bit value, low byte first. -/
def u16Bytes (w : Nat) : List UInt8 := [UInt8.ofNat w, UInt8.ofNat (w / 256)]

@[simp] theorem u16Bytes_length (w : Nat) : (u16Bytes w).length = 2 := rfl

/-- The 16-bit value at the offset `o` of a buffer. -/
def u16At (bs : List UInt8) (o : Nat) : Nat := (bs.getD o 0).toNat + 256 * (bs.getD (o + 1) 0).toNat

theorem u16At_lt (bs : List UInt8) (o : Nat) : u16At bs o < 65536 := by
  have hlo := (bs.getD o 0).toNat_lt
  have hhi := (bs.getD (o + 1) 0).toNat_lt
  rw [u16At]
  omega

theorem Holds.u16At {bs : List UInt8} {o w : Nat} (h : Holds bs o (u16Bytes w)) (hw : w < 65536) :
    ByteBuffers.u16At bs o = w := by
  have hget : ∀ i, i < 2 → bs.getD (o + i) 0 = (u16Bytes w).getD i 0 := by
    intro i hi
    rw [← h, u16Bytes_length, List.getD_eq_getElem?_getD, List.getD_eq_getElem?_getD, List.getElem?_take_of_lt hi,
      List.getElem?_drop]
  have hlo : (bs.getD o 0).toNat = w % 256 :=
    (congrArg UInt8.toNat (hget 0 (Nat.zero_lt_succ 1))).trans UInt8.toNat_ofNat'
  have hhi : (bs.getD (o + 1) 0).toNat = w / 256 % 256 :=
    (congrArg UInt8.toNat (hget 1 (Nat.lt_succ_self 1))).trans UInt8.toNat_ofNat'
  rw [ByteBuffers.u16At, hlo, hhi]
  omega

/-- The word at the offset `o` of a buffer. -/
def word (bs : List UInt8) (o : Nat) : UInt32 := ofLeBytes ((bs.drop o).take 4)

def setWord (bs : List UInt8) (o : Nat) (w : UInt32) : List UInt8 := splice bs o (leBytes w)

theorem setWord_length {bs : List UInt8} {o : Nat} (w : UInt32) (h : o + 4 ≤ bs.length) :
    (setWord bs o w).length = bs.length := splice_length h

theorem word_setWord {bs : List UInt8} {o : Nat} (w : UInt32) (h : o ≤ bs.length) :
    word (setWord bs o w) o = w := by
  have hwindow : ((splice bs o (leBytes w)).drop o).take (leBytes w).length = leBytes w := splice_window h
  rw [leBytes_length] at hwindow
  rw [word, setWord, hwindow, ofLeBytes_leBytes]

/-- A copy that ends before the word or starts after it leaves the word as it is. -/
theorem word_splice {bs data : List UInt8} {o k : Nat} (hlen : o + data.length ≤ bs.length)
    (h : k + 4 ≤ o ∨ o + data.length ≤ k) : word (splice bs o data) k = word bs k := by
  rw [word, word]
  rcases h with hbefore | hafter
  · have htake : (splice bs o data).take (k + 4) = bs.take (k + 4) := splice_take_of_le hbefore (by omega)
    have hwindow : ∀ l : List UInt8, (l.drop k).take 4 = (l.take (k + 4)).drop k := by
      intro l
      rw [List.drop_take, Nat.add_sub_cancel_left]
    rw [hwindow, hwindow, htake]
  · rw [splice_drop_of_le hafter (by omega)]

theorem word_setWord_ne {bs : List UInt8} {o k : Nat} (w : UInt32) (hlen : o + 4 ≤ bs.length)
    (h : k + 4 ≤ o ∨ o + 4 ≤ k) : word (setWord bs o w) k = word bs k :=
  word_splice hlen h

/-- A part of what is read from memory is read from there. -/
theorem read_drop_take (m : Memory) (a : UInt32) {n o k : Nat} (h : o + k ≤ n) :
    ((read m a n).drop o).take k = read m (a + UInt32.ofNat o) k := by
  obtain ⟨r, rfl⟩ : ∃ r, n = o + (k + r) := ⟨n - o - k, by omega⟩
  rw [read_append m a o (k + r), read_append m _ k r, List.drop_left' (read_length m a o),
    List.take_left' (read_length m _ k)]

/-- The word at an address of memory. -/
def loadWord (m : Memory) (a : UInt32) : UInt32 := ofLeBytes (read m a 4)

theorem loadWord_eq (m : Memory) (a : UInt32) {n o : Nat} (h : o + 4 ≤ n) :
    loadWord m (a + UInt32.ofNat o) = word (read m a n) o := by
  rw [loadWord, word, read_drop_take m a h]

end NbiotXY1100.ByteBuffers
