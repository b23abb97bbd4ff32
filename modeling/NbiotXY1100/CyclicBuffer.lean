import Mathlib.Data.Nat.ModEq
import Mathlib.Logic.Function.Basic
import Mathlib.Tactic.SplitIfs

/-! # Windows of a stream in a cyclic buffer

Position `i` of an unbounded stream lives in cell `i % size`. A window that is shorter
than the buffer never sees two of its positions in one cell, so a store behind the window
cannot disturb it. -/
namespace NbiotXY1100.CyclicBuffer

variable {α : Type*} {size : ℕ}

theorem mod_ne_of_lt {i j : ℕ} (h : i < j) (h' : j < i + size) : i % size ≠ j % size := by
  intro heq
  have hdvd : size ∣ j - i := (Nat.modEq_iff_dvd' h.le).mp heq
  have := Nat.le_of_dvd (by omega) hdvd
  omega

theorem add_mod_of_lt {p k : ℕ} (h : p % size + k < size) : (p + k) % size = p % size + k := by
  rw [← Nat.mod_add_mod, Nat.mod_eq_of_lt h]

theorem add_mod_of_ge {p k : ℕ} (h : size ≤ p % size + k) (hk : k ≤ size) (hp : p % size < size) :
    (p + k) % size = p % size + k - size := by
  rw [← Nat.mod_add_mod, Nat.mod_eq_sub_mod h, Nat.mod_eq_of_lt (by omega)]

/-- The buffer holds the stream from `lo` up to `hi`. -/
def Holds (size : ℕ) (mem stream : ℕ → α) (lo hi : ℕ) : Prop :=
  ∀ i, lo ≤ i → i < hi → mem (i % size) = stream i

variable {mem stream : ℕ → α} {lo hi : ℕ}

theorem Holds.mono {lo' hi' : ℕ} (h : Holds size mem stream lo hi) (hlo : lo ≤ lo') (hhi : hi' ≤ hi) :
    Holds size mem stream lo' hi' :=
  fun i h₁ h₂ => h i (hlo.trans h₁) (h₂.trans_le hhi)

theorem Holds.congr {stream' : ℕ → α} (h : Holds size mem stream lo hi)
    (heq : ∀ i, lo ≤ i → i < hi → stream i = stream' i) : Holds size mem stream' lo hi :=
  fun i h₁ h₂ => (h i h₁ h₂).trans (heq i h₁ h₂)

/-- Storing the next item of the stream extends the window, while it fits the buffer. -/
theorem Holds.snoc (h : Holds size mem stream lo hi) (hfit : hi < lo + size) :
    Holds size (Function.update mem (hi % size) (stream hi)) stream lo (hi + 1) := by
  intro i hlo hhi
  rcases Nat.lt_succ_iff_lt_or_eq.mp hhi with hlt | rfl
  · rw [Function.update_of_ne (mod_ne_of_lt hlt (by omega))]
    exact h i hlo hlt
  · exact Function.update_self _ _ _

/-- The free cells of a buffer of which the window from `lo` to `hi` is taken. -/
def room (size lo hi : ℕ) : ℕ := if hi % size < lo % size then lo % size - hi % size else size - hi % size + lo % size

theorem room_eq (hlo : lo ≤ hi) (hfit : hi < lo + size) : room size lo hi = size - (hi - lo) := by
  have hpos : 0 < size := by omega
  have hmod := Nat.mod_lt lo hpos
  obtain ⟨d, rfl⟩ := Nat.exists_eq_add_of_le hlo
  rw [room]
  rcases Nat.lt_or_ge (lo % size + d) size with hd | hd
  · rw [add_mod_of_lt hd]
    split_ifs <;> omega
  · rw [add_mod_of_ge hd (by omega) hmod]
    split_ifs <;> omega

theorem mod_eq_mod_iff_of_lt (hlo : lo ≤ hi) (hfit : hi < lo + size) : hi % size = lo % size ↔ hi = lo := by
  refine ⟨fun h => ?_, fun h => h ▸ rfl⟩
  rcases hlo.lt_or_eq with hlt | heq
  · exact absurd h.symm (mod_ne_of_lt hlt hfit)
  · exact heq.symm

end NbiotXY1100.CyclicBuffer
