import Mathlib.Data.List.Basic
import Mathlib.Data.List.GetD
import Mathlib.Algebra.GroupWithZero.Nat

/-! # Byte memories with 32-bit addresses and NOR flash sectors

A memory gives a byte to each 32-bit address, and addresses wrap. In flash an erase
sets a whole sector to ones and programming can only clear bits, so a sector that is
erased and then programmed holds exactly the programmed bytes. -/
namespace NbiotXY1100.FlashMemory

abbrev Memory := UInt32 → UInt8

def sectorLength : Nat := 4096

/-- The `n` bytes from `a` on. -/
def read (m : Memory) (a : UInt32) (n : Nat) : List UInt8 :=
  (List.range n).map fun i => m (a + UInt32.ofNat i)

/-- The memory with the bytes from `a` on replaced. -/
def write (m : Memory) (a : UInt32) (bs : List UInt8) : Memory :=
  fun x => bs.getD (x - a).toNat (m x)

def eraseSector (m : Memory) (a : UInt32) : Memory :=
  fun x => if x.toNat / sectorLength = a.toNat / sectorLength then 0xFF else m x

def program (m : Memory) (a : UInt32) (bs : List UInt8) : Memory :=
  fun x => m x &&& bs.getD (x - a).toNat 0xFF

/-- No address lies both in the `n` bytes from `a` and in the `k` bytes from `b`. -/
def Apart (a : UInt32) (n : Nat) (b : UInt32) (k : Nat) : Prop :=
  ∀ x : UInt32, (x - a).toNat < n → k ≤ (x - b).toNat

theorem toNat_sub_of_le {x a : UInt32} (h : a.toNat ≤ x.toNat) : (x - a).toNat = x.toNat - a.toNat := by
  have := x.toNat_lt
  rw [UInt32.toNat_sub]
  omega

theorem toNat_sub_of_lt {x a : UInt32} (h : x.toNat < a.toNat) :
    (x - a).toNat = 2 ^ 32 + x.toNat - a.toNat := by
  have := a.toNat_lt
  rw [UInt32.toNat_sub]
  omega

theorem toNat_ofNat_of_lt {i : Nat} (h : i < 2 ^ 32) : (UInt32.ofNat i).toNat = i := by
  rw [UInt32.toNat_ofNat']
  exact Nat.mod_eq_of_lt h

theorem add_toNat_sub (a x : UInt32) : a + UInt32.ofNat (x - a).toNat = x := by
  rw [UInt32.ofNat_toNat]
  grind

theorem toNat_add_ofNat_sub (a : UInt32) {i : Nat} (h : i < 2 ^ 32) :
    (a + UInt32.ofNat i - a).toNat = i := by
  have hcancel : a + UInt32.ofNat i - a = UInt32.ofNat i := by grind
  rw [hcancel, toNat_ofNat_of_lt h]

/-- Moving the base forward by `i` moves every offset from `i` on back by `i`. -/
theorem toNat_sub_add {x a : UInt32} {i : Nat} (hi : i ≤ (x - a).toNat) :
    (x - (a + UInt32.ofNat i)).toNat = (x - a).toNat - i := by
  have hlt := (x - a).toNat_lt
  have hmove : x - (a + UInt32.ofNat i) = (x - a) - UInt32.ofNat i := by grind
  have hoff : (UInt32.ofNat i).toNat = i := toNat_ofNat_of_lt (by omega)
  rw [hmove, toNat_sub_of_le (by omega), hoff]

/-- An offset below `i` wraps to the far end when the base moves forward by `i`. -/
theorem toNat_sub_add_of_lt {x a : UInt32} {i : Nat} (hi : i < 2 ^ 32) (h : (x - a).toNat < i) :
    (x - (a + UInt32.ofNat i)).toNat = 2 ^ 32 + (x - a).toNat - i := by
  have hmove : x - (a + UInt32.ofNat i) = (x - a) - UInt32.ofNat i := by grind
  have hoff : (UInt32.ofNat i).toNat = i := toNat_ofNat_of_lt hi
  rw [hmove, toNat_sub_of_lt (by omega), hoff]

@[simp] theorem read_length (m : Memory) (a : UInt32) (n : Nat) : (read m a n).length = n := by
  simp [read]

theorem read_getD {m : Memory} {a : UInt32} {n i : Nat} (h : i < n) (d : UInt8) :
    (read m a n).getD i d = m (a + UInt32.ofNat i) := by
  simp [read, List.getD, h]

theorem read_congr {m m' : Memory} {a : UInt32} {n : Nat}
    (h : ∀ i < n, m (a + UInt32.ofNat i) = m' (a + UInt32.ofNat i)) : read m a n = read m' a n :=
  List.map_congr_left fun i hi => h i (List.mem_range.mp hi)

theorem read_append (m : Memory) (a : UInt32) (i j : Nat) :
    read m a (i + j) = read m a i ++ read m (a + UInt32.ofNat i) j := by
  rw [read, List.range_add, List.map_append, List.map_map]
  congr 1
  apply List.map_congr_left
  intro k _
  show m (a + UInt32.ofNat (i + k)) = m (a + UInt32.ofNat i + UInt32.ofNat k)
  rw [UInt32.ofNat_add, UInt32.add_assoc]

theorem write_of_lt {m : Memory} {a x : UInt32} {bs : List UInt8} (h : (x - a).toNat < bs.length) :
    write m a bs x = bs[(x - a).toNat] := by
  simp [write, List.getD, h]

theorem write_of_le {m : Memory} {a x : UInt32} {bs : List UInt8} (h : bs.length ≤ (x - a).toNat) :
    write m a bs x = m x := by
  simp [write, List.getD, h]

@[simp] theorem write_nil (m : Memory) (a : UInt32) : write m a [] = m := by
  funext x
  rfl

/-- Writing what is there already changes nothing. -/
theorem write_read (m : Memory) (a : UInt32) (n : Nat) : write m a (read m a n) = m := by
  funext x
  by_cases hx : (x - a).toNat < n
  · rw [write, read_getD hx, add_toNat_sub]
  · apply write_of_le
    rw [read_length]
    omega

theorem read_write {m : Memory} {a : UInt32} {bs : List UInt8} (h : bs.length ≤ 2 ^ 32) :
    read (write m a bs) a bs.length = bs := by
  apply List.ext_getElem (read_length _ _ _)
  intro i hi hi'
  have hoff := toNat_add_ofNat_sub a (Nat.lt_of_lt_of_le hi' h)
  simp only [read, List.getElem_map, List.getElem_range]
  rw [write_of_lt (by rw [hoff]; exact hi')]
  congr 1

theorem write_append {m : Memory} {a : UInt32} {bs cs : List UInt8} (h : bs.length + cs.length ≤ 2 ^ 32) :
    write m a (bs ++ cs) = write (write m a bs) (a + UInt32.ofNat bs.length) cs := by
  funext x
  have hx := (x - a).toNat_lt
  by_cases hb : (x - a).toNat < bs.length
  · have hfar : cs.length ≤ (x - (a + UInt32.ofNat bs.length)).toNat := by
      by_cases hfull : bs.length < 2 ^ 32
      · rw [toNat_sub_add_of_lt hfull hb]
        omega
      · omega
    rw [write_of_le hfar, write_of_lt hb]
    rw [write_of_lt (by rw [List.length_append]; omega)]
    exact List.getElem_append_left hb
  · have hoff := toNat_sub_add (i := bs.length) (x := x) (a := a) (by omega)
    rw [write, write, hoff, write_of_le (by omega)]
    simp [List.getD, List.getElem?_append_right (show bs.length ≤ (x - a).toNat by omega)]

theorem read_write_apart {m : Memory} {a b : UInt32} {n : Nat} {bs : List UInt8} (hn : n ≤ 2 ^ 32)
    (h : Apart a n b bs.length) : read (write m b bs) a n = read m a n := by
  apply read_congr
  intro i hi
  apply write_of_le
  apply h
  rw [toNat_add_ofNat_sub a (by omega)]
  exact hi

theorem Apart.advance {a b : UInt32} {n k i : Nat} (h : Apart a n b k) (hi : i ≤ n) (hn : n < 2 ^ 32) :
    Apart (a + UInt32.ofNat i) (n - i) b k := by
  intro x hx
  apply h
  have hlt := (x - a).toNat_lt
  by_cases hlow : (x - a).toNat < i
  · rw [toNat_sub_add_of_lt (by omega) hlow] at hx
    omega
  · rw [toNat_sub_add (by omega)] at hx
    omega

/-- Copying a window to a buffer, changing bytes there and writing the buffer back changes
just these bytes of the window. -/
theorem read_modify_write {m r : Memory} {a b : UInt32} {n o : Nat} {bs : List UInt8}
    (hfit : o + bs.length ≤ n) :
    write m a (read (write (write r b (read m a n)) (b + UInt32.ofNat o) bs) b n) =
      write m (a + UInt32.ofNat o) bs := by
  funext x
  by_cases hx : (x - a).toNat < n
  · have hbuf : b + (x - a) - (b + UInt32.ofNat o) = x - (a + UInt32.ofNat o) := by grind
    have hback : b + (x - a) - b = x - a := by grind
    have hcopy : write r b (read m a n) (b + (x - a)) = m x := by
      rw [write, hback, read_getD hx, add_toNat_sub]
    rw [write, read_getD hx, UInt32.ofNat_toNat, write, hbuf, hcopy]
    rfl
  · have hout : bs.length ≤ (x - (a + UInt32.ofNat o)).toNat := by
      rw [toNat_sub_add (by omega)]
      omega
    rw [write_of_le hout, write_of_le (by rw [read_length]; omega)]

/-- A part of a written window reads back as that part of the data. -/
theorem read_write_part {m r : Memory} {a b : UInt32} {n o k : Nat} (hn : n < 2 ^ 32) (hfit : o + k ≤ n) :
    read (write r b (read m a n)) (b + UInt32.ofNat o) k = read m (a + UInt32.ofNat o) k := by
  apply List.map_congr_left
  intro i hi
  have hik : i < k := List.mem_range.mp hi
  have hoff : b + UInt32.ofNat o + UInt32.ofNat i - b = UInt32.ofNat (o + i) := by
    rw [UInt32.ofNat_add]
    grind
  rw [write, hoff, toNat_ofNat_of_lt (by omega), read_getD (by omega), UInt32.ofNat_add, UInt32.add_assoc]

theorem eraseSector_of_eq {m : Memory} {a x : UInt32}
    (h : x.toNat / sectorLength = a.toNat / sectorLength) : eraseSector m a x = 0xFF :=
  if_pos h

theorem eraseSector_of_ne {m : Memory} {a x : UInt32}
    (h : x.toNat / sectorLength ≠ a.toNat / sectorLength) : eraseSector m a x = m x :=
  if_neg h

theorem and_ones (b : UInt8) : 0xFF &&& b = b := by
  apply UInt8.toNat_inj.mp
  rw [UInt8.toNat_and, Nat.and_comm]
  show b.toNat &&& (2 ^ 8 - 1) = b.toNat
  rw [Nat.and_two_pow_sub_one_eq_mod]
  exact Nat.mod_eq_of_lt b.toNat_lt

/-- Programming bytes that are still erased stores the data. -/
theorem program_erased {m : Memory} {a : UInt32} {bs : List UInt8}
    (h : ∀ x : UInt32, (x - a).toNat < bs.length → m x = 0xFF) : program m a bs = write m a bs := by
  funext x
  by_cases hx : (x - a).toNat < bs.length
  · rw [program, h x hx, and_ones, write]
    simp [List.getD, hx]
  · rw [write_of_le (by omega), program]
    simp only [List.getD, List.getElem?_eq_none (show bs.length ≤ (x - a).toNat by omega)]
    show m x &&& 0xFF = m x
    rw [UInt8.and_comm, and_ones]

/-- Programming in two pieces is programming the whole. -/
theorem program_append {m : Memory} {a : UInt32} {bs cs : List UInt8} (h : bs.length + cs.length ≤ 2 ^ 32) :
    program m a (bs ++ cs) = program (program m a bs) (a + UInt32.ofNat bs.length) cs := by
  funext x
  have hx := (x - a).toNat_lt
  by_cases hb : (x - a).toNat < bs.length
  · have hfar : cs.length ≤ (x - (a + UInt32.ofNat bs.length)).toNat := by
      by_cases hfull : bs.length < 2 ^ 32
      · rw [toNat_sub_add_of_lt hfull hb]
        omega
      · omega
    rw [program, program, program, List.getD_append _ _ _ _ hb,
      List.getD_eq_default (l := cs) _ hfar, UInt8.and_assoc, UInt8.and_comm _ 0xFF, and_ones]
  · have hoff := toNat_sub_add (i := bs.length) (x := x) (a := a) (by omega)
    rw [program, program, program, hoff, List.getD_append_right _ _ _ _ (by omega),
      List.getD_eq_default (l := bs) _ (by omega), UInt8.and_assoc, and_ones]

/-- In a sector-aligned place, the offsets below the sector length are the sector. -/
theorem toNat_sub_lt_sector {a x : UInt32} (ha : a.toNat % sectorLength = 0) :
    (x - a).toNat < sectorLength ↔ x.toNat / sectorLength = a.toNat / sectorLength := by
  have hx := x.toNat_lt
  have hlt := a.toNat_lt
  unfold sectorLength at *
  by_cases hle : a.toNat ≤ x.toNat
  · rw [toNat_sub_of_le hle]
    omega
  · rw [toNat_sub_of_lt (by omega)]
    omega

theorem program_eraseSector {m : Memory} {a : UInt32} {bs : List UInt8} (ha : a.toNat % sectorLength = 0)
    (hlen : bs.length = sectorLength) : program (eraseSector m a) a bs = write m a bs := by
  have herased : program (eraseSector m a) a bs = write (eraseSector m a) a bs := by
    apply program_erased
    intro x hx
    exact eraseSector_of_eq ((toNat_sub_lt_sector ha).mp (hlen ▸ hx))
  rw [herased]
  funext x
  by_cases hx : (x - a).toNat < bs.length
  · rw [write_of_lt hx, write_of_lt hx]
  · rw [write_of_le (by omega), write_of_le (by omega), eraseSector_of_ne]
    intro hsame
    exact hx (hlen ▸ (toNat_sub_lt_sector ha).mpr hsame)

end NbiotXY1100.FlashMemory
