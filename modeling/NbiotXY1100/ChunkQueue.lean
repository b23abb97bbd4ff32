import Mathlib.Data.Nat.Notation

/-! # Queues of chunks that are taken in parts

A chunk is data with a tag. A pop takes at most a given amount from the chunk at the head and leaves the
rest of it there. `Cuts` says how the chunks that were taken are parts of those that were put in. -/
namespace NbiotXY1100.ChunkQueue

variable {α τ : Type*}

structure Chunk (α τ : Type*) where
  data : List α
  tag : τ

def pop (n : ℕ) : List (Chunk α τ) → Option (Chunk α τ × List (Chunk α τ))
  | [] => none
  | c :: q =>
    if c.data.length ≤ n then some (c, q) else some (⟨c.data.take n, c.tag⟩, ⟨c.data.drop n, c.tag⟩ :: q)

/-- What was taken, in order, of what was put in, with what is left. -/
inductive Cuts : List (Chunk α τ) → List (Chunk α τ) → List (Chunk α τ) → Prop
  | rest (q : List (Chunk α τ)) : Cuts [] q q
  | whole (c : Chunk α τ) {taken put left : List (Chunk α τ)} (h : Cuts taken put left) :
    Cuts (c :: taken) (c :: put) left
  | part (d e : List α) (t : τ) {taken put left : List (Chunk α τ)} (h : Cuts taken (⟨e, t⟩ :: put) left) :
    Cuts (⟨d, t⟩ :: taken) (⟨d ++ e, t⟩ :: put) left

variable {taken put left : List (Chunk α τ)}

theorem Cuts.push (h : Cuts taken put left) (c : Chunk α τ) : Cuts taken (put ++ [c]) (left ++ [c]) := by
  induction h with
  | rest q => exact .rest _
  | whole d _ ih => exact .whole d ih
  | part d e t _ ih => exact .part d e t ih

theorem Cuts.snoc {c : Chunk α τ} (h : Cuts taken put (c :: left)) : Cuts (taken ++ [c]) put left := by
  generalize hq : c :: left = q at h
  induction h with
  | rest q =>
    subst hq
    exact .whole c (.rest left)
  | whole d _ ih => exact .whole d (ih hq)
  | part d e t _ ih => exact .part d e t (ih hq)

theorem Cuts.snoc_part {d e : List α} {t : τ} (h : Cuts taken put (⟨d ++ e, t⟩ :: left)) :
    Cuts (taken ++ [⟨d, t⟩]) put (⟨e, t⟩ :: left) := by
  generalize hq : (⟨d ++ e, t⟩ : Chunk α τ) :: left = q at h
  induction h with
  | rest q =>
    subst hq
    exact .part d e t (.rest _)
  | whole c _ ih => exact .whole c (ih hq)
  | part d' e' t' _ ih => exact .part d' e' t' (ih hq)

/-- A pop is one more cut. -/
theorem Cuts.pop {n : ℕ} {c : Chunk α τ} {q : List (Chunk α τ)} (h : Cuts taken put left)
    (hpop : ChunkQueue.pop n left = some (c, q)) : Cuts (taken ++ [c]) put q := by
  cases left with
  | nil => cases hpop
  | cons d left =>
    rw [ChunkQueue.pop] at hpop
    split at hpop
    · cases hpop
      exact h.snoc
    · cases hpop
      apply Cuts.snoc_part
      rw [List.take_append_drop]
      exact h

theorem pop_length {n : ℕ} {c : Chunk α τ} {q : List (Chunk α τ)} (h : ChunkQueue.pop n left = some (c, q)) :
    c.data.length ≤ n := by
  cases left with
  | nil => cases h
  | cons d left =>
    rw [ChunkQueue.pop] at h
    split at h
    · next hle =>
      cases h
      exact hle
    · cases h
      exact List.length_take_le n _

end NbiotXY1100.ChunkQueue
