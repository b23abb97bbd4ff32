import Mathlib.Data.Nat.Basic
import Mathlib.Algebra.GroupWithZero.Nat

/-! # Big-endian numbers

A number is written into a fixed count of bytes, the highest one first. A signed one is written as its two's
complement. -/
namespace NbiotXY1100.BigEndian

/-- The lowest `k` bytes of a number. -/
def toBytes : ℕ → ℕ → List UInt8
  | 0, _ => []
  | k + 1, n => UInt8.ofNat (n / 256 ^ k) :: toBytes k n

def ofBytes : List UInt8 → ℕ
  | [] => 0
  | b :: bs => b.toNat * 256 ^ bs.length + ofBytes bs

@[simp] theorem toBytes_length (k n : ℕ) : (toBytes k n).length = k := by
  induction k with
  | zero => rfl
  | succ k ih => rw [toBytes, List.length_cons, ih]

theorem ofBytes_toBytes_mod (k n : ℕ) : ofBytes (toBytes k n) = n % 256 ^ k := by
  induction k with
  | zero => exact (Nat.mod_one n).symm
  | succ k ih =>
    have hbyte : (UInt8.ofNat (n / 256 ^ k)).toNat = n / 256 ^ k % 256 := UInt8.toNat_ofNat'
    rw [toBytes, ofBytes, toBytes_length, ih, hbyte, Nat.pow_succ, Nat.mod_mul, Nat.add_comm, Nat.mul_comm]

theorem ofBytes_toBytes {k n : ℕ} (hn : n < 256 ^ k) : ofBytes (toBytes k n) = n := by
  rw [ofBytes_toBytes_mod, Nat.mod_eq_of_lt hn]

def toSignedBytes (k : ℕ) (v : ℤ) : List UInt8 :=
  toBytes k (v % (256 ^ k : ℕ)).toNat

def ofSignedBytes (bytes : List UInt8) : ℤ :=
  (ofBytes bytes : ℤ).bmod (256 ^ bytes.length)

@[simp] theorem toSignedBytes_length (k : ℕ) (v : ℤ) : (toSignedBytes k v).length = k :=
  toBytes_length k _

/-- What fits into the bytes is read back. -/
theorem ofSignedBytes_toSignedBytes {k : ℕ} {v : ℤ} (hlow : -((256 ^ k : ℕ) : ℤ) ≤ v * 2)
    (hhigh : v * 2 < (256 ^ k : ℕ)) : ofSignedBytes (toSignedBytes k v) = v := by
  have hpos : (0 : ℤ) < (256 ^ k : ℕ) := Int.natCast_pos.mpr (Nat.pow_pos (by decide))
  have hnonneg := Int.emod_nonneg v (Int.ne_of_gt hpos)
  have hnat : (v % (256 ^ k : ℕ)).toNat < 256 ^ k :=
    (Int.toNat_lt hnonneg).mpr (Int.emod_lt_of_pos v hpos)
  rw [ofSignedBytes, toSignedBytes_length, toSignedBytes, ofBytes_toBytes hnat, Int.toNat_of_nonneg hnonneg,
    Int.emod_bmod, Int.bmod_eq_of_le_mul_two hlow hhigh]

end NbiotXY1100.BigEndian
