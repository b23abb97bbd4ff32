import NbiotXY1100.FotaByHttp

/-! # The header block of an HTTP response

Behind a line feed of a header block stands a header block again, or nothing. So the empty line is the
only place where the lines are followed by one, whatever the lines are. -/
namespace NbiotXY1100.FotaByHttp
open CStrings StringSearch

/-- A header block with one length and a body of this length. -/
structure Response where
  lines : List (List UInt8)
  body : List UInt8
  line : ∀ l ∈ lines, l ≠ [] ∧ 0 ∉ l ∧ 10 ∉ l ∧ 13 ∉ l
  contentLength : ∃ before after, lines = before ++ (contentLengthKey ++ decimal body.length) :: after ∧
    ∀ l ∈ before ++ after, ¬contentLengthKey <+: l
  body_ne_nil : body ≠ []

def headerText (lines : List (List UInt8)) : List UInt8 := lines.flatMap (· ++ [13, 10]) ++ [13, 10]

def Response.header (r : Response) : List UInt8 := headerText r.lines

theorem headerText_cons (l : List UInt8) (lines : List (List UInt8)) :
    headerText (l :: lines) = (l ++ [13]) ++ 10 :: headerText lines := by
  simp [headerText]

theorem Response.zero_not_mem (r : Response) : 0 ∉ r.header := by
  intro h
  rcases List.mem_append.mp h with h | h
  · obtain ⟨l, hl, hzero⟩ := List.mem_flatMap.mp h
    rcases List.mem_append.mp hzero with hzero | hzero
    · exact (r.line l hl).2.1 hzero
    · exact absurd hzero (by decide)
  · exact absurd h (by decide)

private theorem split_first {c : UInt8} {a u s t : List UInt8} (ha : c ∉ a) (h : a ++ c :: s = u ++ c :: t) :
    t = s ∨ ∃ v, s = v ++ c :: t := by
  induction a generalizing u with
  | nil =>
    cases u with
    | nil => exact .inl (List.cons.inj h).2.symm
    | cons d u => exact .inr ⟨u, (List.cons.inj h).2⟩
  | cons b a ih =>
    obtain ⟨hb, ha⟩ := List.ne_and_not_mem_of_not_mem_cons ha
    cases u with
    | nil => exact absurd (List.cons.inj h).1.symm hb
    | cons d u => exact ih ha (List.cons.inj h).2

theorem behind_lf {lines : List (List UInt8)} {u t : List UInt8} (hline : ∀ l ∈ lines, 10 ∉ l)
    (h : headerText lines = u ++ 10 :: t) : t = [] ∨ ∃ rest, t = headerText rest ∧ ∀ l ∈ rest, l ∈ lines := by
  induction lines generalizing u with
  | nil =>
    rcases @split_first 10 [13] u [] t (by decide) h with ht | ⟨v, hv⟩
    · exact .inl ht
    · exact absurd hv.symm (List.append_ne_nil_of_right_ne_nil v (List.cons_ne_nil 10 t))
  | cons l lines ih =>
    have hl : 10 ∉ l ++ [13] := by
      rw [List.mem_append]
      rintro (hl | hl)
      · exact hline l List.mem_cons_self hl
      · exact absurd hl (by decide)
    rw [headerText_cons] at h
    rcases split_first hl h with rfl | ⟨v, hv⟩
    · exact .inr ⟨lines, rfl, fun l hl => List.mem_cons_of_mem _ hl⟩
    · rcases ih (fun l hl => hline l (List.mem_cons_of_mem _ hl)) hv with ht | ⟨rest, ht, hrest⟩
      · exact .inl ht
      · exact .inr ⟨rest, ht, fun l hl => List.mem_cons_of_mem _ (hrest l hl)⟩

/-- How a header block begins. -/
theorem headerText_head {lines : List (List UInt8)} {c : UInt8} {t : List UInt8}
    (hline : ∀ l ∈ lines, l ≠ [] ∧ 10 ∉ l ∧ 13 ∉ l) (h : c :: t = headerText lines) :
    c ≠ 10 ∧ (c = 13 → t = [10]) := by
  cases lines with
  | nil =>
    obtain ⟨rfl, ht⟩ := List.cons.inj h
    exact ⟨by decide, fun _ => ht⟩
  | cons l lines =>
    obtain ⟨hne, hlf, hcr⟩ := hline l List.mem_cons_self
    cases l with
    | nil => exact absurd rfl hne
    | cons d l =>
      obtain ⟨rfl, -⟩ := List.cons.inj h
      exact ⟨fun hc => hlf (hc ▸ List.mem_cons_self), fun hc => absurd (hc ▸ List.mem_cons_self) hcr⟩

theorem Response.behind_lf (r : Response) {u t : List UInt8} {c : UInt8} (h : r.header = u ++ 10 :: c :: t) :
    c ≠ 10 ∧ (c = 13 → t = [10]) := by
  rcases FotaByHttp.behind_lf (fun l hl => (r.line l hl).2.2.1) h with ht | ⟨rest, ht, hrest⟩
  · cases ht
  · exact headerText_head (fun l hl => ⟨(r.line l (hrest l hl)).1, (r.line l (hrest l hl)).2.2⟩) ht

theorem Response.not_lfLf (r : Response) : ¬lfLf <:+: r.header := by
  intro ⟨u, t, h⟩
  have hsplit : r.header = u ++ 10 :: 10 :: t := by rw [← h, lfLf, List.append_assoc]; rfl
  exact (r.behind_lf hsplit).1 rfl

/-- The empty line ends the header block. -/
theorem Response.behind_crLfCrLf (r : Response) {u t : List UInt8} (h : r.header = u ++ crLfCrLf ++ t) : t = [] := by
  have hsplit : r.header = (u ++ [13]) ++ 10 :: 13 :: (10 :: t) := by
    rw [h, crLfCrLf, List.append_assoc, List.append_assoc]
    rfl
  exact (List.cons.inj ((r.behind_lf hsplit).2 rfl)).2

end NbiotXY1100.FotaByHttp
