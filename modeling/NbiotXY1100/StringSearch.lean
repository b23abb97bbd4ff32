import Mathlib.Data.Nat.Notation

/-! # The first occurrence of a word

`find` is about words, and `strstr` about the string that a block of memory starts with: it
reads up to the terminator and has no result when there is none in the block. -/
namespace NbiotXY1100.StringSearch

variable {α : Type*} [DecidableEq α] {key s : List α} {k : ℕ}

/-- The place of the first occurrence. -/
def find (key : List α) : List α → Option ℕ
  | [] => if key.isPrefixOf [] then some 0 else none
  | c :: s => if key.isPrefixOf (c :: s) then some 0 else (find key s).map (· + 1)

theorem find_cons_here {c : α} (h : key <+: c :: s) : find key (c :: s) = some 0 :=
  if_pos (List.isPrefixOf_iff_prefix.mpr h)

theorem find_cons_later {c : α} (h : ¬key <+: c :: s) : find key (c :: s) = (find key s).map (· + 1) :=
  if_neg (fun hpre => h (List.isPrefixOf_iff_prefix.mp hpre))

theorem find_isSome : (find key s).isSome ↔ key <:+: s := by
  induction s with
  | nil =>
    cases key with
    | nil => simp [find]
    | cons d key => simp [find, List.isPrefixOf]
  | cons c s ih =>
    rw [List.infix_cons_iff, ← ih]
    by_cases hpre : key <+: c :: s
    · simp [find_cons_here hpre, hpre]
    · simp [find_cons_later hpre, hpre]

/-- A symbol that is not in the word before is found behind it. -/
theorem find_singleton_append {c : α} {a : List α} (h : c ∉ a) (s : List α) :
    find [c] (a ++ s) = (find [c] s).map (· + a.length) := by
  induction a with
  | nil =>
    cases hs : find [c] s with
    | none => simp [hs]
    | some j => simp [hs]
  | cons d a ih =>
    obtain ⟨hne, ha⟩ := List.ne_and_not_mem_of_not_mem_cons h
    have hpre : ¬[c] <+: d :: (a ++ s) := by
      rw [List.cons_prefix_cons]
      exact fun hp => hne hp.1
    rw [List.cons_append, find_cons_later hpre, ih ha, Option.map_map]
    rfl

/-- The place of the first occurrence in a string of bytes. -/
def strstr (key : List UInt8) : List UInt8 → Option (Option ℕ)
  | [] => none
  | c :: s =>
    if key.isPrefixOf (c :: s) then some (some 0)
    else if c = 0 then some none
    else (strstr key s).map (Option.map (· + 1))

theorem strstr_lt {key s : List UInt8} {k : ℕ} (h : strstr key s = some (some k)) : k < s.length := by
  induction s generalizing k with
  | nil => cases h
  | cons c s ih =>
    rw [strstr] at h
    split at h
    · cases h
      exact Nat.succ_pos _
    · split at h
      · cases h
      · obtain ⟨r, hr, hk⟩ := Option.map_eq_some_iff.mp h
        obtain ⟨j, rfl, rfl⟩ := Option.map_eq_some_iff.mp hk
        exact Nat.succ_lt_succ (ih hr)

/-- A word without the terminator does not reach it. -/
theorem isPrefix_string {key : List UInt8} (h : 0 ∉ key) (s tail : List UInt8) :
    key <+: s ++ 0 :: tail ↔ key <+: s := by
  constructor
  · intro hpre
    rcases Nat.lt_or_ge s.length key.length with hlt | hle
    · have hget : (s ++ 0 :: tail)[s.length]? = some key[s.length] := List.prefix_iff_getElem?.mp hpre s.length hlt
      rw [List.getElem?_append_right (Nat.le_refl _), Nat.sub_self] at hget
      have hzero : 0 = key[s.length] := Option.some.inj hget
      exact absurd (hzero ▸ List.getElem_mem hlt) h
    · exact List.prefix_of_prefix_length_le hpre (List.prefix_append s _) hle
  · exact fun hpre => hpre.trans (List.prefix_append s _)

theorem strstr_string {key s : List UInt8} (hkey : key ≠ []) (h0 : 0 ∉ key) (hs : 0 ∉ s) (tail : List UInt8) :
    strstr key (s ++ 0 :: tail) = some (find key s) := by
  have hprefix : ∀ t : List UInt8, key.isPrefixOf (t ++ 0 :: tail) = key.isPrefixOf t := by
    intro t
    rw [Bool.eq_iff_iff, List.isPrefixOf_iff_prefix, List.isPrefixOf_iff_prefix]
    exact isPrefix_string h0 t tail
  induction s with
  | nil =>
    have hnil : key.isPrefixOf [] = false := by
      cases key with
      | nil => exact absurd rfl hkey
      | cons d key => rfl
    have hfirst := hprefix []
    rw [hnil] at hfirst
    simp only [List.nil_append] at hfirst ⊢
    rw [strstr, hfirst, find, hnil]
    rfl
  | cons c s ih =>
    obtain ⟨hc, hs⟩ := List.ne_and_not_mem_of_not_mem_cons hs
    rw [List.cons_append, strstr, ← List.cons_append, hprefix (c :: s), ih hs, find]
    split
    · rfl
    · rw [if_neg (fun h => hc h.symm)]
      rfl

theorem strstr_some {key s : List UInt8} {k : ℕ} (h : strstr key s = some (some k)) : key <+: s.drop k := by
  induction s generalizing k with
  | nil => cases h
  | cons c s ih =>
    rw [strstr] at h
    split at h
    · next hpre =>
      cases h
      exact List.isPrefixOf_iff_prefix.mp hpre
    · split at h
      · cases h
      · obtain ⟨r, hr, hk⟩ := Option.map_eq_some_iff.mp h
        obtain ⟨j, rfl, rfl⟩ := Option.map_eq_some_iff.mp hk
        exact ih hr

/-- The first occurrence is found when no terminator comes before it. -/
theorem strstr_found {key a s : List UInt8} (hkey : key ≠ []) (ha : 0 ∉ a) (hs : key <+: s)
    (hfirst : ∀ j, j < a.length → ¬key <+: (a ++ s).drop j) : strstr key (a ++ s) = some (some a.length) := by
  induction a with
  | nil =>
    cases s with
    | nil => exact absurd (List.prefix_nil.mp hs) hkey
    | cons c s => exact if_pos (List.isPrefixOf_iff_prefix.mpr hs)
  | cons c a ih =>
    obtain ⟨hc, ha⟩ := List.ne_and_not_mem_of_not_mem_cons ha
    have hhere : ¬key.isPrefixOf (c :: (a ++ s)) = true := fun hpre =>
      hfirst 0 (Nat.succ_pos _) (List.isPrefixOf_iff_prefix.mp hpre)
    have hrest := ih ha fun j hj => hfirst (j + 1) (Nat.succ_lt_succ hj)
    rw [List.cons_append, strstr, if_neg hhere, if_neg (fun hzero => hc hzero.symm), hrest]
    rfl

/-- Without a terminator a search without success leaves the memory. -/
theorem strstr_unterminated {key s : List UInt8} (hs : 0 ∉ s) (hnone : ¬key <:+: s) : strstr key s = none := by
  induction s with
  | nil => rfl
  | cons c s ih =>
    obtain ⟨hc, hs⟩ := List.ne_and_not_mem_of_not_mem_cons hs
    have hhere : ¬key.isPrefixOf (c :: s) = true := fun hpre => hnone ( List.isPrefixOf_iff_prefix.mp hpre).isInfix
    rw [strstr, if_neg hhere, if_neg (fun hzero => hc hzero.symm), ih hs fun h => hnone (List.infix_cons h)]
    rfl

end NbiotXY1100.StringSearch
