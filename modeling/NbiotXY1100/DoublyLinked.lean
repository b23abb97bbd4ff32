import Mathlib.Data.List.Nodup

/-! # Doubly linked lists in memory

A memory gives a cell to each address in use. A segment is a stretch of cells that are linked
both ways, with what lies before its first cell and where the link of its last cell goes. -/
namespace NbiotXY1100.DoublyLinked

structure Cell (α : Type*) where
  pre : Option ℕ
  item : α
  next : Option ℕ

abbrev Cells (α : Type*) := ℕ → Option (Cell α)

variable {α : Type*}

/-- The memory with the cell at `a` replaced, or freed. -/
def put (m : Cells α) (a : ℕ) (c : Option (Cell α)) : Cells α := fun x => if x = a then c else m x

@[simp] theorem put_self (m : Cells α) (a : ℕ) (c : Option (Cell α)) : put m a c a = c := if_pos rfl

theorem put_of_ne (m : Cells α) {a x : ℕ} (c : Option (Cell α)) (h : x ≠ a) : put m a c x = m x := if_neg h

/-- The cells from `start` to `stop` hold these items, and each points to its neighbours. -/
def Segment (m : Cells α) : Option ℕ → Option ℕ → List (ℕ × α) → Option ℕ → Prop
  | _, start, [], stop => start = stop
  | pre, start, (a, x) :: l, stop =>
    start = some a ∧ ∃ next, m a = some ⟨pre, x, next⟩ ∧ Segment m (some a) next l stop

/-- The address of the last cell, or what lies before the segment. -/
def lastAddr (pre : Option ℕ) : List (ℕ × α) → Option ℕ
  | [] => pre
  | (a, _) :: l => lastAddr (some a) l

theorem segment_append {m : Cells α} {pre start stop : Option ℕ} {l l' : List (ℕ × α)} :
    Segment m pre start (l ++ l') stop ↔
      ∃ mid, Segment m pre start l mid ∧ Segment m (lastAddr pre l) mid l' stop := by
  induction l generalizing pre start with
  | nil =>
    constructor
    · exact fun h => ⟨start, rfl, h⟩
    · rintro ⟨mid, rfl, h⟩
      exact h
  | cons c l ih =>
    obtain ⟨a, x⟩ := c
    constructor
    · rintro ⟨hstart, next, hcell, hrest⟩
      obtain ⟨mid, hl, hl'⟩ := ih.mp hrest
      exact ⟨mid, ⟨hstart, next, hcell, hl⟩, hl'⟩
    · rintro ⟨mid, ⟨hstart, next, hcell, hl⟩, hl'⟩
      exact ⟨hstart, next, hcell, ih.mpr ⟨mid, hl, hl'⟩⟩

/-- A segment sees only its own cells. -/
theorem Segment.frame {m m' : Cells α} {pre start stop : Option ℕ} {l : List (ℕ × α)} (h : Segment m pre start l stop)
    (hsame : ∀ c ∈ l, m' c.1 = m c.1) : Segment m' pre start l stop := by
  induction l generalizing pre start with
  | nil => exact h
  | cons c l ih =>
    obtain ⟨a, x⟩ := c
    obtain ⟨hstart, next, hcell, hrest⟩ := h
    refine ⟨hstart, next, ?_, ih hrest fun c hc => hsame c (List.mem_cons_of_mem _ hc)⟩
    rw [hsame _ List.mem_cons_self]
    exact hcell

/-- Each cell of a segment is in memory with its item. -/
theorem Segment.cell {m : Cells α} {pre start stop : Option ℕ} {l : List (ℕ × α)} (h : Segment m pre start l stop)
    {a : ℕ} {x : α} (hmem : (a, x) ∈ l) : ∃ pre next, m a = some ⟨pre, x, next⟩ := by
  induction l generalizing pre start with
  | nil => cases hmem
  | cons c l ih =>
    obtain ⟨b, y⟩ := c
    obtain ⟨-, next, hcell, hrest⟩ := h
    rcases List.mem_cons.mp hmem with heq | hmem
    · cases heq
      exact ⟨pre, next, hcell⟩
    · exact ih hrest hmem

/-- A segment is determined by its memory. -/
theorem Segment.unique {m : Cells α} {pre start : Option ℕ} {l l' : List (ℕ × α)} (h : Segment m pre start l none)
    (h' : Segment m pre start l' none) : l = l' := by
  induction l generalizing pre start l' with
  | nil =>
    cases h
    cases l' with
    | nil => rfl
    | cons c l' => cases h'.1
  | cons c l ih =>
    obtain ⟨a, x⟩ := c
    obtain ⟨rfl, next, hcell, hrest⟩ := h
    cases l' with
    | nil => cases h'
    | cons c' l' =>
      obtain ⟨b, y⟩ := c'
      obtain ⟨hab, next', hcell', hrest'⟩ := h'
      cases hab
      rw [hcell] at hcell'
      cases hcell'
      rw [ih hrest hrest']

/-- Linking a new cell behind the last one. -/
theorem Segment.append {m : Cells α} {pre start : Option ℕ} {l : List (ℕ × α)} {z a : ℕ} {c : Cell α} {y : α} (x : α)
    (h : Segment m pre start (l ++ [(z, y)]) none) (hc : m z = some c) (hz : z ∉ l.map Prod.fst)
    (ha : a ∉ (l ++ [(z, y)]).map Prod.fst) :
    Segment (put (put m a (some ⟨some z, x, none⟩)) z (some { c with next := some a })) pre start
      (l ++ [(z, y)] ++ [(a, x)]) none := by
  obtain ⟨mid, hl, rfl, next, hcell, hnext⟩ := segment_append.mp h
  rw [hc] at hcell
  cases hcell
  have haz : a ≠ z := by
    rintro rfl
    exact ha (by simp)
  rw [List.append_assoc]
  apply segment_append.mpr
  refine ⟨some z, hl.frame fun c hc => ?_, rfl, some a, put_self _ _ _, rfl, none, ?_, rfl⟩
  · have hmem : c.1 ∈ l.map Prod.fst := List.mem_map_of_mem hc
    have hne : c.1 ≠ a := by
      intro heq
      rw [heq] at hmem
      apply ha
      rw [List.map_append]
      exact List.mem_append_left _ hmem
    have hnez : c.1 ≠ z := by
      intro heq
      rw [heq] at hmem
      exact hz hmem
    rw [put_of_ne _ _ hnez, put_of_ne _ _ hne]
  · rw [put_of_ne _ _ haz, put_self]

/-- The memory once the cell `a` is taken out from between its neighbours and freed. -/
def unlink (m : Cells α) (a : ℕ) (c : Cell α) (p : ℕ) : Cells α :=
  let m := match c.next with
    | some b => put m b ((m b).map fun d => { d with pre := c.pre })
    | none => m
  put (put m p ((m p).map fun d => { d with next := c.next })) a none

section
variable {m : Cells α} {a p : ℕ} {c : Cell α}

theorem unlink_of_ne {d : ℕ} (hp : d ≠ p) (ha : d ≠ a) (hnext : c.next ≠ some d) : unlink m a c p d = m d := by
  unfold unlink
  cases hc : c.next with
  | none =>
    dsimp only
    rw [put_of_ne _ _ ha, put_of_ne _ _ hp]
  | some b =>
    have hb : d ≠ b := by
      rintro rfl
      exact hnext hc
    dsimp only
    rw [put_of_ne _ _ ha, put_of_ne _ _ hp, put_of_ne _ _ hb]

theorem unlink_pre {d : Cell α} (hd : m p = some d) (ha : p ≠ a) (hnext : c.next ≠ some p) :
    unlink m a c p p = some { d with next := c.next } := by
  unfold unlink
  cases hc : c.next with
  | none =>
    dsimp only
    rw [put_of_ne _ _ ha, put_self, hd]
    rfl
  | some b =>
    have hb : p ≠ b := by
      rintro rfl
      exact hnext hc
    dsimp only
    rw [put_of_ne _ _ ha, put_self, put_of_ne _ _ hb, hd]
    rfl

theorem unlink_next {b : ℕ} {d : Cell α} (hd : m b = some d) (hp : b ≠ p) (ha : b ≠ a) (hnext : c.next = some b) :
    unlink m a c p b = some { d with pre := c.pre } := by
  unfold unlink
  rw [hnext]
  dsimp only
  rw [put_of_ne _ _ ha, put_of_ne _ _ hp, put_self, hd]
  rfl

end

/-- Taking a cell out from between its neighbours links these. -/
theorem Segment.unlink {m : Cells α} {pre start : Option ℕ} {l l' : List (ℕ × α)} {p a : ℕ} {y x : α} {c : Cell α}
    (h : Segment m pre start (l ++ (p, y) :: (a, x) :: l') none) (hc : m a = some c)
    (hnodup : ((l ++ (p, y) :: (a, x) :: l').map Prod.fst).Nodup) :
    Segment (unlink m a c p) pre start (l ++ (p, y) :: l') none := by
  obtain ⟨mid, hl, rfl, next, hp, ha, next', hcell, hrest⟩ := segment_append.mp h
  cases ha
  rw [hc] at hcell
  cases hcell
  rw [List.map_append, List.nodup_append, List.map_cons, List.map_cons, List.nodup_cons, List.nodup_cons,
    List.mem_cons, not_or] at hnodup
  obtain ⟨-, ⟨⟨hpa, hpl'⟩, hal', hl'⟩, hapart⟩ := hnodup
  have hbefore : ∀ d ∈ l, d.1 ≠ p ∧ d.1 ≠ a ∧ d.1 ∉ l'.map Prod.fst := by
    intro d hd
    have hdl := List.mem_map_of_mem (f := Prod.fst) hd
    refine ⟨hapart _ hdl _ List.mem_cons_self, hapart _ hdl _ (List.mem_cons_of_mem _ List.mem_cons_self), ?_⟩
    intro hmem
    exact hapart _ hdl _ (List.mem_cons_of_mem _ (List.mem_cons_of_mem _ hmem)) rfl
  have hfirst : ∀ d, next' = some d → d ∈ l'.map Prod.fst := by
    intro d hd
    cases l' with
    | nil => cases hrest.symm.trans hd
    | cons e l' =>
      cases hrest.1.symm.trans hd
      exact List.mem_cons_self
  apply segment_append.mpr
  refine ⟨some p, ?_, rfl, next', ?_, ?_⟩
  · apply hl.frame
    intro d hd
    obtain ⟨hdp, hda, hdl'⟩ := hbefore d hd
    exact unlink_of_ne hdp hda fun heq => hdl' (hfirst _ heq)
  · exact unlink_pre hp hpa fun heq => hpl' (hfirst _ heq)
  · cases l' with
    | nil => exact hrest
    | cons e l' =>
      obtain ⟨b, w⟩ := e
      obtain ⟨rfl, next'', hb, hrest⟩ := hrest
      rw [List.map_cons, List.mem_cons, not_or] at hpl' hal'
      rw [List.map_cons, List.nodup_cons] at hl'
      refine ⟨rfl, next'', unlink_next hb (Ne.symm hpl'.1) (Ne.symm hal'.1) rfl, ?_⟩
      apply hrest.frame
      intro d hd
      have hmem := List.mem_map_of_mem (f := Prod.fst) hd
      apply unlink_of_ne
      · intro heq
        exact hpl'.2 (heq ▸ hmem)
      · intro heq
        exact hal'.2 (heq ▸ hmem)
      · intro heq
        cases heq
        exact hl'.1 hmem

end NbiotXY1100.DoublyLinked
