import Mathlib.Data.List.TakeWhile

/-! # Parsers in memory and spans of text

A parser may fail in two ways: it refuses the text, or it leaves its memory. A span of
characters of one kind ends where a text says it does. -/
namespace NbiotXY1100.TextParsing

variable {α β : Type*}

/-- The parser stays in its memory and yields exactly the values with `P`. -/
def Decides (x : Option (Option β)) (P : β → Prop) : Prop := ∃ r, x = some r ∧ ∀ b, r = some b ↔ P b

theorem decides_refused {P : β → Prop} (h : ∀ b, ¬P b) : Decides (some none) P :=
  ⟨none, rfl, fun b => iff_of_false nofun (h b)⟩

theorem decides_value {P : β → Prop} {a : β} (h : ∀ b, P b ↔ b = a) : Decides (some (some a)) P :=
  ⟨some a, rfl, fun b => by rw [h, Option.some.injEq, eq_comm]⟩

theorem Decides.congr {x : Option (Option β)} {P Q : β → Prop} (h : Decides x P) (hpq : ∀ b, Q b ↔ P b) : Decides x Q := by
  obtain ⟨r, hr, hiff⟩ := h
  exact ⟨r, hr, fun b => (hiff b).trans (hpq b).symm⟩

theorem Decides.ne_none {x : Option (Option β)} {P : β → Prop} (h : Decides x P) : x ≠ none := by
  obtain ⟨r, rfl, -⟩ := h
  exact Option.some_ne_none r

theorem Decides.eq_some_iff {x : Option (Option β)} {P : β → Prop} (h : Decides x P) (b : β) : x = some (some b) ↔ P b := by
  obtain ⟨r, rfl, hiff⟩ := h
  rw [Option.some.injEq, hiff]

section
variable {p : α → Bool} {t u : List α}

theorem takeWhile_span (ht : ∀ c ∈ t, p c = true) {c : α} (hc : p c = false) (s : List α) :
    (t ++ c :: s).takeWhile p = t := by
  rw [List.takeWhile_append_of_pos ht, List.takeWhile_cons_of_neg (by simp [hc]), List.append_nil]

theorem takeWhile_span_self (ht : ∀ c ∈ t, p c = true) : t.takeWhile p = t := List.takeWhile_eq_self_iff.mpr ht

/-- A text is split behind its first span in one way only. -/
theorem span_unique (ht : ∀ c ∈ t, p c = true) (hu : ∀ c ∈ u, p c = true) {c d : α} (hc : p c = false) (hd : p d = false)
    {r s : List α} (h : t ++ c :: r = u ++ d :: s) : t = u ∧ c = d ∧ r = s := by
  have htu : t = u := by
    have htake := congrArg (List.takeWhile p) h
    rwa [takeWhile_span ht hc, takeWhile_span hu hd] at htake
  subst htu
  obtain ⟨hcd, hrs⟩ := List.cons.inj (List.append_cancel_left h)
  exact ⟨rfl, hcd, hrs⟩

theorem span_ne (hu : ∀ c ∈ u, p c = true) {c : α} (hc : p c = false) (r : List α) : t ++ c :: r ≠ u := by
  rintro rfl
  have htrue := hu c (List.mem_append_right t List.mem_cons_self)
  rw [hc] at htrue
  cases htrue

end

end NbiotXY1100.TextParsing
