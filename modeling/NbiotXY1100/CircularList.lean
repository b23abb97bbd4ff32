import Mathlib.Data.List.Nodup
import Mathlib.Logic.Function.Basic

/-! # Circular doubly linked lists

Nodes are linked into a ring that starts and ends at a marker. A node is linked in between two neighbours, or two nodes
are linked past the one between them. -/
namespace NbiotXY1100.CircularList

structure Links (N : Type*) where
  next : N → N
  prev : N → N

variable {N : Type*} {s : Links N} {e p n x b : N} {l l₁ l₂ : List N}

/-- From one node through a list of nodes to another one, along both links. -/
def LinkPath (s : Links N) : N → List N → N → Prop
  | a, [], b => s.next a = b ∧ s.prev b = a
  | a, x :: l, b => s.next a = x ∧ s.prev x = a ∧ LinkPath s x l b

theorem path_append {a : N} {l' : List N} :
    LinkPath s a (l ++ x :: l') b ↔ LinkPath s a l x ∧ LinkPath s x l' b := by
  induction l generalizing a with
  | nil => exact and_assoc.symm
  | cons y l ih =>
    rw [List.cons_append, LinkPath, LinkPath, ih, and_assoc, and_assoc]

/-- Where the links of two states agree, they have the same paths. -/
theorem LinkPath.congr {s' : Links N} {a : N} (h : LinkPath s a l b)
    (hnext : ∀ y, y = a ∨ y ∈ l → s'.next y = s.next y) (hprev : ∀ y, y = b ∨ y ∈ l → s'.prev y = s.prev y) :
    LinkPath s' a l b := by
  induction l generalizing a with
  | nil => exact ⟨(hnext a (Or.inl rfl)).trans h.1, (hprev b (Or.inl rfl)).trans h.2⟩
  | cons x l ih =>
    obtain ⟨hx, hxa, hl⟩ := h
    refine ⟨(hnext a (Or.inl rfl)).trans hx, (hprev x (Or.inr List.mem_cons_self)).trans hxa, ?_⟩
    refine ih hl (fun y hy => ?_) fun y hy => ?_
    · refine hnext y (Or.inr ?_)
      rcases hy with rfl | hy
      · exact List.mem_cons_self
      · exact List.mem_cons_of_mem x hy
    · exact hprev y (hy.imp_right (List.mem_cons_of_mem x))

theorem LinkPath.next_of_end {a : N} (h : LinkPath s a l b) :
    s.next a = b ∨ s.next a ∈ l := by
  cases l with
  | nil => exact Or.inl h.1
  | cons x l => exact Or.inr (h.1 ▸ List.mem_cons_self)

theorem LinkPath.prev_of_start {a : N} (h : LinkPath s a l b) :
    s.prev b = a ∨ s.prev b ∈ l := by
  induction l generalizing a with
  | nil => exact Or.inl h.2
  | cons x l ih =>
    obtain ⟨-, -, hrest⟩ := h
    rcases ih hrest with hx | hl
    · exact Or.inr (hx ▸ List.mem_cons_self)
    · exact Or.inr (List.mem_cons_of_mem x hl)

/-- A ring through the marker `e` and the nodes of a list. -/
structure LinkedRing (s : Links N) (e : N) (l : List N) : Prop where
  path : LinkPath s e l e
  nodup : (e :: l).Nodup

theorem LinkedRing.split (h : LinkedRing s e (l₁ ++ p :: l₂)) :
    LinkPath s e l₁ p ∧ LinkPath s p l₂ e ∧ (e ∉ l₁ ∧ p ≠ e ∧ e ∉ l₂) ∧ (p ∉ l₁ ∧ p ∉ l₂ ∧ l₂.Nodup) ∧
      ∀ y ∈ l₁, y ∉ l₂ := by
  obtain ⟨hleft, hright⟩ := path_append.mp h.path
  have hnodup := h.nodup
  simp only [List.nodup_cons, List.mem_append, List.mem_cons, List.nodup_append, not_or] at hnodup
  obtain ⟨⟨he₁, hep, he₂⟩, -, ⟨hp₂, hl₂⟩, hcross⟩ := hnodup
  refine ⟨hleft, hright, ⟨he₁, Ne.symm hep, he₂⟩, ⟨fun hp => hcross p hp p (Or.inl rfl) rfl, hp₂, hl₂⟩, ?_⟩
  exact fun y hy hy' => hcross y hy y (Or.inr hy') rfl

/-- The links of a ring stay in it. -/
theorem LinkedRing.next_mem {y : N} (h : LinkedRing s e l) (hy : y ∈ e :: l) : s.next y ∈ e :: l := by
  rcases List.mem_cons.mp hy with rfl | hy
  · exact List.mem_cons.mpr h.path.next_of_end
  · obtain ⟨l₁, l₂, rfl⟩ := List.append_of_mem hy
    rcases h.split.2.1.next_of_end with hnext | hnext
    · exact hnext ▸ List.mem_cons_self
    · exact List.mem_cons_of_mem e (List.mem_append_right l₁ (List.mem_cons_of_mem y hnext))

theorem LinkedRing.prev_mem {y : N} (h : LinkedRing s e l) (hy : y ∈ e :: l) : s.prev y ∈ e :: l := by
  rcases List.mem_cons.mp hy with rfl | hy
  · exact List.mem_cons.mpr h.path.prev_of_start
  · obtain ⟨l₁, l₂, rfl⟩ := List.append_of_mem hy
    rcases h.split.1.prev_of_start with hprev | hprev
    · exact hprev ▸ List.mem_cons_self
    · exact List.mem_cons_of_mem e (List.mem_append_left _ hprev)

theorem LinkedRing.congr {s' : Links N} (h : LinkedRing s e l) (hnext : ∀ y ∈ e :: l, s'.next y = s.next y)
    (hprev : ∀ y ∈ e :: l, s'.prev y = s.prev y) : LinkedRing s' e l :=
  ⟨h.path.congr (fun y hy => hnext y (List.mem_cons.mpr hy)) fun y hy => hprev y (List.mem_cons.mpr hy), h.nodup⟩

variable [DecidableEq N]

def link (s : Links N) (a b : N) : Links N :=
  { next := Function.update s.next a b, prev := Function.update s.prev b a }

theorem link_next_self (s : Links N) (a b : N) : (link s a b).next a = b :=
  Function.update_self ..

theorem link_prev_self (s : Links N) (a b : N) : (link s a b).prev b = a :=
  Function.update_self ..

theorem link_next_of_ne (s : Links N) {a y : N} (b : N) (h : y ≠ a) : (link s a b).next y = s.next y :=
  Function.update_of_ne h ..

theorem link_prev_of_ne (s : Links N) {b y : N} (a : N) (h : y ≠ b) : (link s a b).prev y = s.prev y :=
  Function.update_of_ne h ..

/-- The node `n` behind the node `p`. -/
def insertAfter (s : Links N) (p n : N) : Links N :=
  link (link s n (s.next p)) p n

/-- The neighbours of `x` are linked past it. -/
def remove (s : Links N) (x : N) : Links N :=
  link s (s.prev x) (s.next x)

theorem insertAfter_next (s : Links N) {y : N} (hp : y ≠ p) (hn : y ≠ n) : (insertAfter s p n).next y = s.next y := by
  rw [insertAfter, link_next_of_ne _ _ hp, link_next_of_ne _ _ hn]

theorem insertAfter_prev (s : Links N) {y : N} (hn : y ≠ n) (hq : y ≠ s.next p) :
    (insertAfter s p n).prev y = s.prev y := by
  rw [insertAfter, link_prev_of_ne _ _ hn, link_prev_of_ne _ _ hq]

/-- What follows `p` follows `n` now. The end of the path may be `p` itself. -/
theorem LinkPath.insertAfter (h : LinkPath s p l b) (hp : p ∉ l) (hb : b ∉ l) (hnodup : l.Nodup) (hn : n ∉ l)
    (hnp : n ≠ p) (hnb : n ≠ b) : LinkPath (insertAfter s p n) p (n :: l) b := by
  have hfirst : (CircularList.insertAfter s p n).next p = n := link_next_self ..
  have hback : (CircularList.insertAfter s p n).prev n = p := link_prev_self ..
  have hsecond : (CircularList.insertAfter s p n).next n = s.next p := by
    rw [CircularList.insertAfter, link_next_of_ne _ _ hnp, link_next_self]
  have hafter : n ≠ s.next p → (CircularList.insertAfter s p n).prev (s.next p) = n := fun hne => by
    rw [CircularList.insertAfter, link_prev_of_ne _ _ hne.symm, link_prev_self]
  refine ⟨hfirst, hback, ?_⟩
  cases l with
  | nil =>
    obtain ⟨hnext, -⟩ := h
    rw [hnext] at hsecond hafter
    exact ⟨hsecond, hafter hnb⟩
  | cons y l =>
    obtain ⟨hnext, -, hrest⟩ := h
    rw [hnext] at hsecond hafter
    have hny : n ≠ y := fun h => hn (h ▸ List.mem_cons_self)
    obtain ⟨hyl, -⟩ := List.nodup_cons.mp hnodup
    refine ⟨hsecond, hafter hny, hrest.congr (fun z hz => ?_) fun z hz => ?_⟩
    · have hmem : z ∈ y :: l := by
        rcases hz with rfl | hz
        · exact List.mem_cons_self
        · exact List.mem_cons_of_mem y hz
      exact insertAfter_next s (fun h => hp (h ▸ hmem)) fun h => hn (h ▸ hmem)
    · have hzn : z ≠ n := by
        rcases hz with rfl | hz
        · exact hnb.symm
        · exact fun h => hn (h ▸ List.mem_cons_of_mem y hz)
      have hzy : z ≠ y := by
        rcases hz with rfl | hz
        · exact fun h => hb (h ▸ List.mem_cons_self)
        · exact fun h => hyl (h ▸ hz)
      exact insertAfter_prev s hzn (hnext.symm ▸ hzy)

/-- The nodes up to `p` keep their links. -/
theorem LinkedRing.insertAfter_mid (h : LinkedRing s e (l₁ ++ p :: l₂)) (hn : n ∉ e :: (l₁ ++ p :: l₂)) :
    LinkedRing (insertAfter s p n) e (l₁ ++ p :: n :: l₂) := by
  obtain ⟨hleft, hright, ⟨he₁, hpe, he₂⟩, ⟨hp₁, hp₂, hl₂⟩, hcross⟩ := h.split
  simp only [List.mem_cons, List.mem_append, not_or] at hn
  obtain ⟨hne, hn₁, hnp, hn₂⟩ := hn
  have hq : ∀ y, y = p ∨ y ∈ l₁ → y ≠ s.next p := by
    intro y hy heq
    rcases hright.next_of_end with hnext | hnext
    · rcases hy with rfl | hy
      · exact hpe (heq.trans hnext)
      · exact he₁ (heq.trans hnext ▸ hy)
    · rcases hy with rfl | hy
      · exact hp₂ (heq ▸ hnext)
      · exact hcross y hy (heq ▸ hnext)
  have hkept : LinkPath (CircularList.insertAfter s p n) e l₁ p := by
    refine hleft.congr (fun y hy => ?_) fun y hy => ?_
    · refine insertAfter_next s ?_ ?_
      · rcases hy with rfl | hy
        · exact hpe.symm
        · exact fun heq => hp₁ (heq ▸ hy)
      · rcases hy with rfl | hy
        · exact Ne.symm hne
        · exact fun heq => hn₁ (heq ▸ hy)
    · refine insertAfter_prev s ?_ (hq y hy)
      rcases hy with rfl | hy
      · exact Ne.symm hnp
      · exact fun heq => hn₁ (heq ▸ hy)
  refine ⟨path_append.mpr ⟨hkept, hright.insertAfter hp₂ he₂ hl₂ hn₂ hnp hne⟩, ?_⟩
  have hnodup := h.nodup
  have hperm : (e :: (l₁ ++ p :: n :: l₂)).Perm (n :: e :: (l₁ ++ p :: l₂)) := by
    refine List.Perm.trans (List.Perm.cons e ?_) (List.Perm.swap n e _)
    have hmid : l₁ ++ p :: n :: l₂ = (l₁ ++ [p]) ++ n :: l₂ := by simp
    have hold : l₁ ++ p :: l₂ = (l₁ ++ [p]) ++ l₂ := by simp
    rw [hmid, hold]
    exact List.perm_middle
  refine hperm.nodup_iff.mpr (List.nodup_cons.mpr ⟨?_, hnodup⟩)
  simp only [List.mem_cons, List.mem_append, not_or]
  exact ⟨hne, hn₁, hnp, hn₂⟩

/-- The path goes past `x`. -/
theorem LinkPath.remove (h : LinkPath s p (x :: l) b) (hp : p ∉ l) (hb : b ∉ l) (hnodup : l.Nodup) :
    LinkPath (remove s x) p l b := by
  obtain ⟨-, hback, hrest⟩ := h
  rw [CircularList.remove, hback]
  cases l with
  | nil =>
    rw [hrest.1]
    exact ⟨link_next_self .., link_prev_self ..⟩
  | cons y l =>
    obtain ⟨hnext, -, hrest⟩ := hrest
    rw [hnext]
    obtain ⟨hyl, -⟩ := List.nodup_cons.mp hnodup
    refine ⟨link_next_self .., link_prev_self .., hrest.congr (fun z hz => ?_) fun z hz => ?_⟩
    · have hmem : z ∈ y :: l := by
        rcases hz with rfl | hz
        · exact List.mem_cons_self
        · exact List.mem_cons_of_mem y hz
      exact link_next_of_ne _ _ fun h => hp (h ▸ hmem)
    · refine link_prev_of_ne _ _ ?_
      rcases hz with rfl | hz
      · exact fun h => hb (h ▸ List.mem_cons_self)
      · exact fun h => hyl (h ▸ hz)

theorem LinkedRing.remove_first (h : LinkedRing s e (x :: l)) : LinkedRing (remove s x) e l := by
  have hnodup := h.nodup
  rw [List.nodup_cons, List.mem_cons, not_or, List.nodup_cons] at hnodup
  obtain ⟨⟨-, hel⟩, -, hl⟩ := hnodup
  exact ⟨h.path.remove hel hel hl, List.nodup_cons.mpr ⟨hel, hl⟩⟩

theorem LinkedRing.remove_mid (h : LinkedRing s e (l₁ ++ p :: x :: l₂)) :
    LinkedRing (remove s x) e (l₁ ++ p :: l₂) := by
  obtain ⟨hleft, hright, ⟨he₁, hpe, he₂⟩, ⟨hp₁, hp₂, hl₂⟩, hcross⟩ := h.split
  rw [List.mem_cons, not_or] at he₂ hp₂
  obtain ⟨hxl, hl₂⟩ := List.nodup_cons.mp hl₂
  obtain ⟨-, hback, hrest⟩ := hright
  have hkept : LinkPath (CircularList.remove s x) e l₁ p := by
    rw [CircularList.remove, hback]
    refine hleft.congr (fun y hy => ?_) fun y hy => ?_
    · refine link_next_of_ne _ _ ?_
      rcases hy with rfl | hy
      · exact hpe.symm
      · exact fun heq => hp₁ (heq ▸ hy)
    · refine link_prev_of_ne _ _ fun heq => ?_
      rcases hrest.next_of_end with hnext | hnext
      · rcases hy with rfl | hy
        · exact hpe (heq.trans hnext)
        · exact he₁ (heq.trans hnext ▸ hy)
      · rcases hy with rfl | hy
        · exact hp₂.2 (heq ▸ hnext)
        · exact hcross y hy (List.mem_cons_of_mem x (heq ▸ hnext))
  have hpath : LinkPath s p (x :: l₂) e := (path_append.mp h.path).2
  refine ⟨path_append.mpr ⟨hkept, hpath.remove hp₂.2 he₂.2 hl₂⟩, ?_⟩
  refine List.Nodup.sublist ?_ h.nodup
  exact ((List.Sublist.refl l₁).append ((List.sublist_cons_self x l₂).cons_cons p)).cons_cons e

theorem LinkedRing.insertAfter_marker (h : LinkedRing s e l) (hn : n ∉ e :: l) :
    LinkedRing (insertAfter s e n) e (n :: l) := by
  obtain ⟨hel, hl⟩ := List.nodup_cons.mp h.nodup
  have hne : n ≠ e := fun heq => hn (heq ▸ List.mem_cons_self)
  have hnl : n ∉ l := fun hmem => hn (List.mem_cons_of_mem e hmem)
  refine ⟨h.path.insertAfter hel hel hl hnl hne hne, ?_⟩
  rw [List.nodup_cons, List.mem_cons, not_or, List.nodup_cons]
  exact ⟨⟨hne.symm, hel⟩, hnl, hl⟩

/-- A ring without the new node and without the neighbours of its place is as before. -/
theorem LinkedRing.insertAfter_other (h : LinkedRing s e l) (hp : p ∉ e :: l) (hn : n ∉ e :: l)
    (hq : s.next p ∉ e :: l) :
    LinkedRing (CircularList.insertAfter s p n) e l :=
  h.congr (fun _ hy => insertAfter_next s (fun heq => hp (heq ▸ hy)) fun heq => hn (heq ▸ hy))
    fun _ hy => insertAfter_prev s (fun heq => hn (heq ▸ hy)) fun heq => hq (heq ▸ hy)

theorem LinkedRing.remove_other (h : LinkedRing s e l) (hp : s.prev x ∉ e :: l) (hq : s.next x ∉ e :: l) :
    LinkedRing (CircularList.remove s x) e l :=
  h.congr (fun _ hy => link_next_of_ne s _ fun heq => hp (heq ▸ hy))
    fun _ hy => link_prev_of_ne s _ fun heq => hq (heq ▸ hy)

end NbiotXY1100.CircularList
