import NbiotXY1100.CircularList
import NbiotXY1100.StepSimulation
import NbiotXY1100.TaskDelay
import Mathlib.Algebra.GroupWithZero.Nat

/-! # The lists of the kernel

`list.c` keeps a list as a ring of items through a marker. An index goes round the ring; an item is put in by its value
or in front of the index. -/
namespace NbiotXY1100.KernelLists
open CircularList StepRuns StepSimulation
open TaskDelay (portMaxDelay)

inductive Node (Item L : Type*) where
  | item (i : Item)
  | xListEnd (l : L)
  deriving DecidableEq

structure Heap (Item L : Type*) where
  links : Links (Node Item L)
  xItemValue : Item → UInt32
  pxContainer : Item → Option L
  pxIndex : L → Node Item L
  uxNumberOfItems : L → ℕ

section
variable {Item L : Type*}

def Heap.value (h : Heap Item L) : Node Item L → ℕ
  | .item i => (h.xItemValue i).toNat
  | .xListEnd _ => portMaxDelay

/-- The loop of `vListInsert`. -/
def search (h : Heap Item L) (xValueOfInsertion : ℕ) : ℕ → Node Item L → Option (Node Item L)
  | 0, _ => none
  | fuel + 1, pxIterator =>
    if h.value (h.links.next pxIterator) ≤ xValueOfInsertion then
      search h xValueOfInsertion fuel (h.links.next pxIterator)
    else some pxIterator

/-- `vListInitialise` and `vListInitialiseItem` for all lists and items. -/
def initialHeap (xItemValue : Item → UInt32) : Heap Item L where
  links := { next := id, prev := id }
  xItemValue := xItemValue
  pxContainer := fun _ => none
  pxIndex := .xListEnd
  uxNumberOfItems := fun _ => 0

variable [DecidableEq Item] [DecidableEq L]

def added (l : L) (i : Item) (links : Links (Node Item L)) (h : Heap Item L) : Heap Item L :=
  { h with
    links := links
    pxContainer := Function.update h.pxContainer i (some l)
    uxNumberOfItems := Function.update h.uxNumberOfItems l (h.uxNumberOfItems l + 1) }

/-- The loop goes past every item at most once. -/
def vListInsert (l : L) (i : Item) (h : Heap Item L) : Option (Heap Item L) :=
  (if h.value (.item i) = portMaxDelay then some (h.links.prev (.xListEnd l))
    else search h (h.value (.item i)) (h.uxNumberOfItems l + 1) (.xListEnd l)).map fun pxIterator =>
      added l i (insertAfter h.links pxIterator (.item i)) h

def vListInsertEnd (l : L) (i : Item) (h : Heap Item L) : Heap Item L :=
  let pxIndex := h.pxIndex l
  let pxPrevious := h.links.prev pxIndex
  added l i
    { next := Function.update (Function.update h.links.next (.item i) pxIndex) pxPrevious (.item i)
      prev := Function.update (Function.update h.links.prev (.item i) pxPrevious) pxIndex (.item i) } h

def removed (l : L) (i : Item) (h : Heap Item L) : Heap Item L :=
  { h with
    links := remove h.links (.item i)
    pxIndex := Function.update h.pxIndex l (if h.pxIndex l = .item i then h.links.prev (.item i) else h.pxIndex l)
    pxContainer := Function.update h.pxContainer i none
    uxNumberOfItems := Function.update h.uxNumberOfItems l (h.uxNumberOfItems l - 1) }

def uxListRemove (i : Item) (h : Heap Item L) : Option (Heap Item L) :=
  (h.pxContainer i).map fun l => removed l i h

/-- `listGET_OWNER_OF_NEXT_ENTRY`. -/
def nextEntry (l : L) (h : Heap Item L) : Heap Item L :=
  let pxIndex := h.links.next (h.pxIndex l)
  { h with pxIndex := Function.update h.pxIndex l (if pxIndex = .xListEnd l then h.links.next pxIndex else pxIndex) }

inductive Action (Item L : Type*) where
  | insert (l : L) (i : Item) (xItemValue : UInt32)
  | insertEnd (l : L) (i : Item)
  | remove (i : Item)
  | next (l : L)

/-- Only an item that is in no list is put into one, and only its value is set. -/
def step : Action Item L → Heap Item L → Option (Heap Item L)
  | .insert l i v, h =>
    if h.pxContainer i = none then vListInsert l i { h with xItemValue := Function.update h.xItemValue i v } else none
  | .insertEnd l i, h => if h.pxContainer i = none then some (vListInsertEnd l i h) else none
  | .remove i, h => uxListRemove i h
  | .next l, h => some (nextEntry l h)

end

/-! ### Lists of items -/

section
variable {Item L : Type*}

/-- The lists as their items in order, and the item at each index, if it is not the marker. -/
structure View (Item L : Type*) where
  items : L → List Item
  index : L → Option Item
  holder : Item → Option L
  value : Item → UInt32

def initialView (value : Item → UInt32) : View Item L :=
  { items := fun _ => [], index := fun _ => none, holder := fun _ => none, value := value }

def indexNode (l : L) : Option Item → Node Item L
  | none => .xListEnd l
  | some i => .item i

structure Represents (h : Heap Item L) (w : View Item L) : Prop where
  ring : ∀ l, LinkedRing h.links (.xListEnd l) ((w.items l).map Node.item)
  holder : ∀ i l, w.holder i = some l ↔ i ∈ w.items l
  container : h.pxContainer = w.holder
  number : ∀ l, h.uxNumberOfItems l = (w.items l).length
  index : ∀ l, h.pxIndex l = indexNode l (w.index l)
  indexMem : ∀ l i, w.index l = some i → i ∈ w.items l
  value : h.xItemValue = w.value

variable [DecidableEq Item] [DecidableEq L]

def insertBefore (index : Option Item) (i : Item) : List Item → List Item
  | [] => [i]
  | j :: js => if index = some j then i :: j :: js else j :: insertBefore index i js

/-- The item in front of another one. -/
def predecessor (i : Item) (js : List Item) : Option Item :=
  (js.takeWhile fun j => j ≠ i).getLast?

/-- The items behind the index. -/
def behind (index : Option Item) (js : List Item) : List Item :=
  match index with
  | none => js
  | some i => (js.dropWhile fun j => j ≠ i).tail

/-- The list `l` is `js` now, with `i` in it. -/
def View.put (w : View Item L) (l : L) (i : Item) (js : List Item) : View Item L :=
  { w with items := Function.update w.items l js, holder := Function.update w.holder i (some l) }

def View.take (w : View Item L) (l : L) (i : Item) : View Item L :=
  { w with
    items := Function.update w.items l ((w.items l).erase i)
    index := Function.update w.index l (if w.index l = some i then predecessor i (w.items l) else w.index l)
    holder := Function.update w.holder i none }

/-- The index goes to the next item, from the last one to the first one. -/
def View.goOn (w : View Item L) (l : L) : View Item L :=
  { w with
    index := Function.update w.index l ((behind (w.index l) (w.items l)).head?.or (w.items l).head?) }

section
variable (w : View Item L) {l m : L} {i j : Item} {js : List Item}

theorem View.put_items_self : (w.put l i js).items l = js :=
  Function.update_self ..

theorem View.put_items_of_ne (hm : m ≠ l) : (w.put l i js).items m = w.items m :=
  Function.update_of_ne hm ..

theorem View.put_holder_self : (w.put l i js).holder i = some l :=
  Function.update_self ..

theorem View.put_holder_of_ne (hj : j ≠ i) : (w.put l i js).holder j = w.holder j :=
  Function.update_of_ne hj ..

theorem View.take_items_self : (w.take l i).items l = (w.items l).erase i :=
  Function.update_self ..

theorem View.take_items_of_ne (hm : m ≠ l) : (w.take l i).items m = w.items m :=
  Function.update_of_ne hm ..

theorem View.take_holder_self : (w.take l i).holder i = none :=
  Function.update_self ..

theorem View.take_holder_of_ne (hj : j ≠ i) : (w.take l i).holder j = w.holder j :=
  Function.update_of_ne hj ..

theorem View.take_index_self :
    (w.take l i).index l = if w.index l = some i then predecessor i (w.items l) else w.index l :=
  Function.update_self ..

theorem View.take_index_of_ne (hm : m ≠ l) : (w.take l i).index m = w.index m :=
  Function.update_of_ne hm ..

theorem View.goOn_index_self :
    (w.goOn l).index l = (behind (w.index l) (w.items l)).head?.or (w.items l).head? :=
  Function.update_self ..

theorem View.goOn_index_of_ne (hm : m ≠ l) : (w.goOn l).index m = w.index m :=
  Function.update_of_ne hm ..

end

def viewStep : Action Item L → View Item L → Option (View Item L)
  | .insert l i v, w =>
    if w.holder i = none then
      let value := Function.update w.value i v
      some (View.put { w with value := value } l i (TimedList.insert (fun j => (value j).toNat) i (w.items l)))
    else none
  | .insertEnd l i, w =>
    if w.holder i = none then some (w.put l i (insertBefore (w.index l) i (w.items l))) else none
  | .remove i, w => (w.holder i).map fun l => w.take l i
  | .next l, w => some (w.goOn l)

end

/-! ### Places -/

section
variable {Item L : Type*} {s : Links (Node Item L)} {h : Heap Item L} {w : View Item L} {l l' : L} {p : Node Item L}
  {i j : Item} {js js' l₁ l₂ : List Item}

/-- The node `p` is the one in front of the place of `i` in the longer list. -/
def Placed (l : L) (p : Node Item L) (i : Item) (js js' : List Item) : Prop :=
  p = .xListEnd l ∧ js' = i :: js ∨
    ∃ l₁ j l₂, p = .item j ∧ js = l₁ ++ j :: l₂ ∧ js' = l₁ ++ j :: i :: l₂

def nodes (l : L) (js : List Item) : List (Node Item L) :=
  .xListEnd l :: js.map .item

theorem xListEnd_ne_item : (Node.xListEnd l : Node Item L) ≠ .item i := by
  intro heq
  cases heq

theorem item_mem_nodes : .item i ∈ nodes l js ↔ i ∈ js := by
  simp [nodes]

theorem xListEnd_mem_nodes : (Node.xListEnd l' : Node Item L) ∈ nodes l js ↔ l' = l := by
  simp [nodes]

theorem Placed.mem_nodes (hp : Placed l p i js js') : p ∈ nodes l js := by
  rcases hp with ⟨rfl, -⟩ | ⟨l₁, j, l₂, rfl, rfl, -⟩
  · exact List.mem_cons_self
  · exact item_mem_nodes.mpr (List.mem_append_right l₁ List.mem_cons_self)

theorem Placed.mem (hp : Placed l p i js js') : j ∈ js' ↔ j = i ∨ j ∈ js := by
  rcases hp with ⟨-, rfl⟩ | ⟨l₁, m, l₂, -, rfl, rfl⟩
  · exact List.mem_cons
  · simp only [List.mem_append, List.mem_cons, or_left_comm]

theorem Placed.length (hp : Placed l p i js js') : js'.length = js.length + 1 := by
  rcases hp with ⟨-, rfl⟩ | ⟨l₁, m, l₂, -, rfl, rfl⟩
  · rfl
  · simp only [List.length_append, List.length_cons]
    omega

/-- What follows the start of a path. -/
theorem path_head {a : Node Item L} (hpath : LinkPath s a (js.map .item) (.xListEnd l)) :
    s.next a = indexNode l js.head? ∧ s.prev (indexNode l js.head?) = a := by
  cases js with
  | nil => exact hpath
  | cons j js => exact ⟨hpath.1, hpath.2.1⟩

/-- The node in front of any place of a ring, and the link back. -/
theorem prev_placed (hring : LinkedRing s (.xListEnd l) ((l₁ ++ l₂).map .item)) (i : Item) :
    Placed l (s.prev (indexNode l l₂.head?)) i (l₁ ++ l₂) (l₁ ++ i :: l₂) ∧
      s.next (s.prev (indexNode l l₂.head?)) = indexNode l l₂.head? := by
  rcases List.eq_nil_or_concat' l₁ with rfl | ⟨k, m, rfl⟩
  · obtain ⟨hnext, hprev⟩ := path_head hring.path
    rw [List.nil_append] at hnext hprev
    rw [hprev]
    exact ⟨Or.inl ⟨rfl, rfl⟩, hnext⟩
  · have hpath := hring.path
    rw [List.append_assoc, List.singleton_append, List.map_append, List.map_cons] at hpath
    obtain ⟨hnext, hprev⟩ := path_head (path_append.mp hpath).2
    rw [hprev]
    exact ⟨Or.inr ⟨k, m, l₂, rfl, List.append_assoc .., List.append_assoc ..⟩, hnext⟩

/-- The loop stops in front of the place of an item whose value is not the marker's. -/
theorem search_placed {a : Node Item L} {x fuel : ℕ} (hpath : LinkPath h.links a (js.map .item) (.xListEnd l))
    (hx : (h.xItemValue i).toNat = x) (hmax : x < portMaxDelay) (hfuel : js.length < fuel) :
    ∃ p, search h x fuel a = some p ∧
      (p = a ∧ TimedList.insert (fun j => (h.xItemValue j).toNat) i js = i :: js ∨
        ∃ l₁ j l₂, p = .item j ∧ js = l₁ ++ j :: l₂ ∧
          TimedList.insert (fun j => (h.xItemValue j).toNat) i js = l₁ ++ j :: i :: l₂) := by
  induction js generalizing a fuel with
  | nil =>
    obtain ⟨fuel, rfl⟩ : ∃ n, fuel = n + 1 := ⟨fuel - 1, by simp at hfuel; omega⟩
    refine ⟨a, ?_, Or.inl ⟨rfl, rfl⟩⟩
    rw [search, hpath.1]
    exact if_neg (Nat.not_le.mpr hmax)
  | cons j js ih =>
    obtain ⟨fuel, rfl⟩ : ∃ n, fuel = n + 1 := ⟨fuel - 1, by simp at hfuel; omega⟩
    obtain ⟨hnext, -, hrest⟩ := hpath
    rw [search, hnext, TimedList.insert, hx]
    by_cases hle : (h.xItemValue j).toNat ≤ x
    · rw [if_pos (show h.value (.item j) ≤ x from hle), if_pos hle]
      obtain ⟨p, hp, hplace⟩ := ih hrest (Nat.lt_of_succ_lt_succ hfuel)
      refine ⟨p, hp, Or.inr ?_⟩
      rcases hplace with ⟨rfl, hins⟩ | ⟨l₁, m, l₂, rfl, rfl, hins⟩
      · exact ⟨[], j, js, rfl, rfl, congrArg (j :: ·) hins⟩
      · exact ⟨j :: l₁, m, l₂, rfl, rfl, congrArg (j :: ·) hins⟩
    · rw [if_neg (show ¬h.value (.item j) ≤ x from hle), if_neg hle]
      exact ⟨a, rfl, Or.inl ⟨rfl, rfl⟩⟩

theorem Represents.nodup (hr : Represents h w) (l : L) : (w.items l).Nodup :=
  (List.nodup_cons.mp (hr.ring l).nodup).2.of_map

/-- An item that is in no list, seen from a list. -/
theorem Represents.not_mem (hr : Represents h w) (hi : w.holder i = none) (l : L) : i ∉ w.items l :=
  fun hmem => Option.some_ne_none l (((hr.holder i l).mpr hmem).symm.trans hi)

theorem Represents.disjoint (hr : Represents h w) (hne : l ≠ l') (hp : p ∈ nodes l (w.items l)) :
    p ∉ nodes l' (w.items l') := by
  cases p with
  | item i =>
    intro hp'
    have h₁ := (hr.holder i l).mpr (item_mem_nodes.mp hp)
    have h₂ := (hr.holder i l').mpr (item_mem_nodes.mp hp')
    exact hne (Option.some.inj (h₁.symm.trans h₂))
  | xListEnd m =>
    intro hp'
    exact hne ((xListEnd_mem_nodes.mp hp).symm.trans (xListEnd_mem_nodes.mp hp'))

theorem indexNode_eq_item {index : Option Item} : indexNode l index = .item i ↔ index = some i := by
  cases index with
  | none => exact iff_of_false xListEnd_ne_item (Option.some_ne_none i).symm
  | some j =>
    exact ⟨fun heq => congrArg some (Node.item.inj heq), fun heq => congrArg Node.item (Option.some.inj heq)⟩

theorem prev_item (hring : LinkedRing s (.xListEnd l) ((l₁ ++ i :: l₂).map .item)) :
    s.prev (.item i) = indexNode l l₁.getLast? := by
  rcases List.eq_nil_or_concat' l₁ with rfl | ⟨k, m, rfl⟩
  · exact hring.path.2.1
  · have hpath := hring.path
    rw [List.append_assoc, List.singleton_append, List.map_append, List.map_cons] at hpath
    rw [List.getLast?_concat]
    exact (path_append.mp hpath).2.2.1

variable [DecidableEq Item]

theorem insertBefore_none (i : Item) (js : List Item) : insertBefore none i js = js ++ [i] := by
  induction js with
  | nil => rfl
  | cons j js ih => rw [insertBefore, if_neg (Option.some_ne_none j).symm, ih, List.cons_append]

theorem insertBefore_some (hj : j ∉ l₁) : insertBefore (some j) i (l₁ ++ j :: l₂) = l₁ ++ i :: j :: l₂ := by
  induction l₁ with
  | nil => exact if_pos rfl
  | cons m l₁ ih =>
    rw [List.mem_cons, not_or] at hj
    rw [List.cons_append, insertBefore, if_neg (fun heq => hj.1 (Option.some.inj heq)), ih hj.2, List.cons_append]

theorem insertBefore_split {index : Option Item} (hmem : ∀ j, index = some j → j ∈ js) :
    ∃ l₁ l₂, js = l₁ ++ l₂ ∧ l₂.head? = index ∧ ∀ i, insertBefore index i js = l₁ ++ i :: l₂ := by
  cases index with
  | none => exact ⟨js, [], (List.append_nil js).symm, rfl, fun i => insertBefore_none i js⟩
  | some j =>
    obtain ⟨l₁, l₂, rfl, hj⟩ := List.eq_append_cons_of_mem (hmem j rfl)
    exact ⟨l₁, j :: l₂, rfl, rfl, fun i => insertBefore_some hj⟩

theorem ne_of_not_mem (hi : i ∉ l₁) : ∀ j ∈ l₁, decide (j ≠ i) = true :=
  fun _ hj => decide_eq_true fun heq => hi (heq ▸ hj)

theorem predecessor_append (hi : i ∉ l₁) : predecessor i (l₁ ++ i :: l₂) = l₁.getLast? := by
  rw [predecessor, List.takeWhile_append_of_pos (ne_of_not_mem hi), List.takeWhile_cons_of_neg (by simp),
    List.append_nil]

theorem behind_append (hi : i ∉ l₁) : behind (some i) (l₁ ++ i :: l₂) = l₂ := by
  rw [behind, List.dropWhile_append_of_pos (ne_of_not_mem hi), List.dropWhile_cons_of_neg (by simp), List.tail_cons]

/-- The items in the order in which the index comes to them. The one at the index is the last. -/
def ahead (index : Option Item) (js : List Item) : List Item :=
  behind index js ++ index.elim [] fun i => (js.takeWhile fun j => j ≠ i) ++ [i]

theorem ahead_append (hi : i ∉ l₁) : ahead (some i) (l₁ ++ i :: l₂) = l₂ ++ (l₁ ++ [i]) := by
  rw [ahead, behind_append hi, Option.elim_some, List.takeWhile_append_of_pos (ne_of_not_mem hi),
    List.takeWhile_cons_of_neg (by simp), List.append_nil]

theorem ahead_perm {index : Option Item} (hmem : ∀ i, index = some i → i ∈ js) : (ahead index js).Perm js := by
  cases index with
  | none => exact List.Perm.of_eq (List.append_nil js)
  | some i =>
    obtain ⟨l₁, l₂, rfl, hi⟩ := List.eq_append_cons_of_mem (hmem i rfl)
    rw [ahead_append hi, List.append_cons l₁ i l₂]
    exact List.perm_append_comm

/-- The index goes to the first of them, which is the last one then. -/
theorem ahead_step {index : Option Item} (hmem : ∀ i, index = some i → i ∈ js) (hnodup : js.Nodup)
    (hahead : ahead index js = j :: l₂) :
    (behind index js).head?.or js.head? = some j ∧ ahead (some j) js = l₂ ++ [j] := by
  have hstart : js = j :: l₂ → js.head? = some j ∧ ahead (some j) js = l₂ ++ [j] := by
    intro hjs
    rw [hjs]
    exact ⟨rfl, ahead_append List.not_mem_nil⟩
  cases index with
  | none =>
    obtain ⟨hhead, hlast⟩ := hstart ((List.append_nil js).symm.trans hahead)
    refine ⟨?_, hlast⟩
    rw [behind, hhead, Option.some_or]
  | some i =>
    obtain ⟨l₁, r, rfl, hi⟩ := List.eq_append_cons_of_mem (hmem i rfl)
    rw [ahead_append hi] at hahead
    rw [behind_append hi]
    cases r with
    | nil => exact hstart hahead
    | cons k m =>
      obtain ⟨rfl, rfl⟩ := List.cons.inj hahead
      rw [List.append_cons l₁ i (k :: m)] at hnodup ⊢
      have hk : k ∉ l₁ ++ [i] := fun hmem =>
        (List.nodup_append.mp hnodup).2.2 k hmem k List.mem_cons_self rfl
      exact ⟨rfl, (ahead_append hk).trans (List.append_assoc ..).symm⟩

theorem mem_of_mem_behind {index : Option Item} (hj : j ∈ behind index js) : j ∈ js := by
  cases index with
  | none => exact hj
  | some i => exact (List.dropWhile_sublist _).mem (List.mem_of_mem_tail hj)

theorem Represents.setValue (hr : Represents h w) (i : Item) (v : UInt32) :
    Represents { h with xItemValue := Function.update h.xItemValue i v }
      { w with value := Function.update w.value i v } :=
  ⟨hr.ring, hr.holder, hr.container, hr.number, hr.index, hr.indexMem, congrArg (Function.update · i v) hr.value⟩

theorem Represents.next_index (hr : Represents h w) (l : L) :
    h.links.next (h.pxIndex l) = indexNode l (behind (w.index l) (w.items l)).head? := by
  have hpath := (hr.ring l).path
  rw [hr.index]
  cases hidx : w.index l with
  | none => exact (path_head hpath).1
  | some i =>
    obtain ⟨l₁, l₂, hjs, hi⟩ := List.eq_append_cons_of_mem (hr.indexMem l i hidx)
    rw [hjs, List.map_append, List.map_cons] at hpath
    rw [hjs, behind_append hi]
    exact (path_head (path_append.mp hpath).2).1

variable [DecidableEq L]

theorem Placed.ring (hp : Placed l p i js js') (hring : LinkedRing s (.xListEnd l) (js.map .item)) (hi : i ∉ js) :
    LinkedRing (insertAfter s p (.item i)) (.xListEnd l) (js'.map .item) := by
  have hnew : (.item i : Node Item L) ∉ nodes l js := fun hmem => hi (item_mem_nodes.mp hmem)
  rcases hp with ⟨rfl, rfl⟩ | ⟨l₁, j, l₂, rfl, rfl, rfl⟩
  · exact hring.insertAfter_marker hnew
  · rw [nodes, List.map_append, List.map_cons] at hnew
    rw [List.map_append, List.map_cons] at hring
    rw [List.map_append, List.map_cons, List.map_cons]
    exact hring.insertAfter_mid hnew

/-! ### The functions -/

theorem Represents.added (hr : Represents h w) (hi : w.holder i = none) (hp : Placed l p i (w.items l) js') :
    Represents (added l i (insertAfter h.links p (.item i)) h) (w.put l i js') := by
  have hout := hr.not_mem hi
  refine ⟨fun m => ?_, fun j m => ?_, ?_, fun m => ?_, hr.index, fun m j hj => ?_, hr.value⟩
  · by_cases hm : m = l
    · subst hm
      rw [w.put_items_self]
      exact hp.ring (hr.ring m) (hout m)
    · rw [w.put_items_of_ne hm]
      have hother : ∀ y ∈ nodes l (w.items l), y ∉ nodes m (w.items m) := fun y hy =>
        hr.disjoint (Ne.symm hm) hy
      exact (hr.ring m).insertAfter_other (hother p hp.mem_nodes) (fun hmem => hout m (item_mem_nodes.mp hmem))
        (hother _ ((hr.ring l).next_mem hp.mem_nodes))
  · by_cases hj : j = i
    · subst hj
      rw [w.put_holder_self, Option.some.injEq]
      by_cases hm : m = l
      · subst hm
        rw [w.put_items_self, hp.mem]
        simp
      · rw [w.put_items_of_ne hm]
        exact iff_of_false (Ne.symm hm) (hout m)
    · rw [w.put_holder_of_ne hj, hr.holder]
      by_cases hm : m = l
      · subst hm
        rw [w.put_items_self, hp.mem]
        simp [hj]
      · rw [w.put_items_of_ne hm]
  · exact congrArg (Function.update · i (some l)) hr.container
  · by_cases hm : m = l
    · subst hm
      rw [w.put_items_self, hp.length, ← hr.number m]
      exact Function.update_self ..
    · rw [w.put_items_of_ne hm, ← hr.number m]
      exact Function.update_of_ne hm ..
  · by_cases hm : m = l
    · subst hm
      rw [w.put_items_self]
      exact hp.mem.mpr (Or.inr (hr.indexMem m j hj))
    · rw [w.put_items_of_ne hm]
      exact hr.indexMem m j hj

/-- Behind the last item for the value of the marker, and where the loop stops for any other one. -/
theorem Represents.vListInsert (hr : Represents h w) (l : L) (hi : w.holder i = none) :
    ∃ h', vListInsert l i h = some h' ∧
      Represents h' (w.put l i (TimedList.insert (fun j => (w.value j).toNat) i (w.items l))) := by
  have hplace : ∃ p, (if h.value (.item i) = portMaxDelay then some (h.links.prev (.xListEnd l))
        else search h (h.value (.item i)) (h.uxNumberOfItems l + 1) (.xListEnd l)) = some p ∧
      Placed l p i (w.items l) (TimedList.insert (fun j => (w.value j).toNat) i (w.items l)) := by
    rw [← hr.value]
    by_cases hmax : h.value (.item i) = portMaxDelay
    · have hle : ∀ j ∈ w.items l, (h.xItemValue j).toNat ≤ (h.xItemValue i).toNat := fun j _ =>
        Nat.le_trans (Nat.le_sub_one_of_lt (h.xItemValue j).toNat_lt) (Nat.le_of_eq hmax.symm)
      have hins : TimedList.insert (fun j => (h.xItemValue j).toNat) i (w.items l ++ []) = w.items l ++ [i] :=
        TimedList.insert_append_of_le hle
      have hring := hr.ring l
      rw [← List.append_nil (w.items l)] at hring
      have hplaced := (prev_placed hring i).1
      rw [← hins, List.append_nil] at hplaced
      exact ⟨_, if_pos hmax, hplaced⟩
    · have hlt : (h.xItemValue i).toNat < portMaxDelay :=
        Nat.lt_of_le_of_ne (Nat.le_sub_one_of_lt (h.xItemValue i).toNat_lt) hmax
      have hfuel : (w.items l).length < h.uxNumberOfItems l + 1 :=
        Nat.lt_succ_of_le (Nat.le_of_eq (hr.number l).symm)
      obtain ⟨p, hp, hplaced⟩ := search_placed (hr.ring l).path rfl hlt hfuel
      exact ⟨p, (if_neg hmax).trans hp, hplaced⟩
  obtain ⟨p, hp, hplaced⟩ := hplace
  rw [KernelLists.vListInsert, hp]
  exact ⟨_, rfl, hr.added hi hplaced⟩

theorem vListInsertEnd_eq (hne : Node.item i ≠ h.pxIndex l)
    (hnext : h.links.next (h.links.prev (h.pxIndex l)) = h.pxIndex l) :
    vListInsertEnd l i h = added l i (insertAfter h.links (h.links.prev (h.pxIndex l)) (.item i)) h := by
  rw [vListInsertEnd, Function.update_comm hne, insertAfter, hnext]
  rfl

theorem Represents.vListInsertEnd (hr : Represents h w) (l : L) (hi : w.holder i = none) :
    Represents (vListInsertEnd l i h) (w.put l i (insertBefore (w.index l) i (w.items l))) := by
  obtain ⟨l₁, l₂, hjs, hhead, hins⟩ := insertBefore_split (hr.indexMem l)
  have hring := hr.ring l
  rw [hjs] at hring
  obtain ⟨hplaced, hnext⟩ := prev_placed hring i
  rw [hhead, ← hr.index] at hplaced hnext
  rw [← hjs, ← hins] at hplaced
  have hne : Node.item i ≠ h.pxIndex l := by
    rw [hr.index]
    intro heq
    exact hr.not_mem hi l (hr.indexMem l i (indexNode_eq_item.mp heq.symm))
  rw [vListInsertEnd_eq hne hnext]
  exact hr.added hi hplaced

/-! ### Removal and the index -/

theorem remove_ring (hring : LinkedRing s (.xListEnd l) ((l₁ ++ i :: l₂).map .item)) :
    LinkedRing (remove s (.item i)) (.xListEnd l) ((l₁ ++ l₂).map .item) := by
  rcases List.eq_nil_or_concat' l₁ with rfl | ⟨k, m, rfl⟩
  · exact hring.remove_first
  · rw [List.append_assoc, List.singleton_append, List.map_append, List.map_cons, List.map_cons] at hring
    rw [List.append_assoc, List.singleton_append, List.map_append, List.map_cons]
    exact hring.remove_mid

theorem Represents.removed (hr : Represents h w) (hi : w.holder i = some l) :
    Represents (removed l i h) (w.take l i) := by
  have hmem := (hr.holder i l).mp hi
  have hring := hr.ring l
  have hnodup := hr.nodup l
  have hout : ∀ m, m ≠ l → i ∉ w.items m := fun m hm hmem =>
    hm (Option.some.inj (((hr.holder i m).mpr hmem).symm.trans hi))
  obtain ⟨l₁, l₂, hjs, hi₁⟩ := List.eq_append_cons_of_mem hmem
  have hpred : predecessor i (w.items l) = l₁.getLast? := hjs ▸ predecessor_append hi₁
  have herase : (w.items l).erase i = l₁ ++ l₂ := by rw [hjs, List.erase_append_right _ hi₁, List.erase_cons_head]
  refine ⟨fun m => ?_, fun j m => ?_, ?_, fun m => ?_, fun m => ?_, fun m j hj => ?_, hr.value⟩
  · rw [hjs] at hring
    by_cases hm : m = l
    · subst hm
      rw [w.take_items_self, herase]
      exact remove_ring hring
    · rw [w.take_items_of_ne hm]
      have hnode : .item i ∈ nodes l (w.items l) := item_mem_nodes.mpr hmem
      have hother : ∀ y ∈ nodes l (w.items l), y ∉ nodes m (w.items m) := fun y hy =>
        hr.disjoint (Ne.symm hm) hy
      exact (hr.ring m).remove_other (hother _ ((hr.ring l).prev_mem hnode)) (hother _ ((hr.ring l).next_mem hnode))
  · by_cases hm : m = l
    · subst hm
      rw [w.take_items_self, hnodup.mem_erase_iff, ← hr.holder]
      by_cases hj : j = i
      · rw [hj, w.take_holder_self]
        exact iff_of_false (Option.some_ne_none m).symm fun hne => hne.1 rfl
      · rw [w.take_holder_of_ne hj]
        exact (and_iff_right hj).symm
    · rw [w.take_items_of_ne hm, ← hr.holder]
      by_cases hj : j = i
      · rw [hj, w.take_holder_self]
        exact iff_of_false (Option.some_ne_none m).symm fun hheld => hout m hm ((hr.holder i m).mp hheld)
      · rw [w.take_holder_of_ne hj]
  · exact congrArg (Function.update · i none) hr.container
  · by_cases hm : m = l
    · subst hm
      rw [w.take_items_self, List.length_erase_of_mem hmem, ← hr.number m]
      exact Function.update_self ..
    · rw [w.take_items_of_ne hm, ← hr.number m]
      exact Function.update_of_ne hm ..
  · by_cases hm : m = l
    · subst hm
      have hset : (KernelLists.removed m i h).pxIndex m =
          if h.pxIndex m = .item i then h.links.prev (.item i) else h.pxIndex m := Function.update_self ..
      rw [w.take_index_self, hset, hr.index m]
      by_cases hidx : w.index m = some i
      · rw [if_pos (indexNode_eq_item.mpr hidx), if_pos hidx, hpred]
        exact prev_item (hjs ▸ hring)
      · rw [if_neg fun heq => hidx (indexNode_eq_item.mp heq), if_neg hidx]
    · rw [w.take_index_of_ne hm, ← hr.index m]
      exact Function.update_of_ne hm ..
  · by_cases hm : m = l
    · subst hm
      rw [w.take_index_self] at hj
      rw [w.take_items_self]
      split at hj
      next =>
        rw [hpred] at hj
        rw [herase]
        exact List.mem_append_left l₂ (List.mem_of_getLast? hj)
      next hidx =>
        exact hnodup.mem_erase_iff.mpr ⟨fun heq => hidx (heq ▸ hj), hr.indexMem m j hj⟩
    · rw [w.take_index_of_ne hm] at hj
      rw [w.take_items_of_ne hm]
      exact hr.indexMem m j hj

theorem Represents.nextEntry (hr : Represents h w) (l : L) :
    Represents (nextEntry l h) (w.goOn l) := by
  refine ⟨hr.ring, hr.holder, hr.container, hr.number, fun m => ?_, fun m j hj => ?_, hr.value⟩
  · by_cases hm : m = l
    · subst hm
      have hnext := hr.next_index m
      have hfirst := (path_head (hr.ring m).path).1
      have hset : (KernelLists.nextEntry m h).pxIndex m =
          if h.links.next (h.pxIndex m) = .xListEnd m then h.links.next (h.links.next (h.pxIndex m))
          else h.links.next (h.pxIndex m) := Function.update_self ..
      rw [w.goOn_index_self, hset, hnext]
      cases (behind (w.index m) (w.items m)).head? with
      | none => exact (if_pos rfl).trans hfirst
      | some j => exact if_neg xListEnd_ne_item.symm
    · rw [w.goOn_index_of_ne hm, ← hr.index m]
      exact Function.update_of_ne hm ..
  · by_cases hm : m = l
    · subst hm
      rw [w.goOn_index_self] at hj
      rcases Option.or_eq_some_iff.mp hj with hj | ⟨-, hj⟩
      · exact mem_of_mem_behind (List.mem_of_head? hj)
      · exact List.mem_of_head? hj
    · rw [w.goOn_index_of_ne hm] at hj
      exact hr.indexMem m j hj

/-! ### Going round -/

/-- The nodes at the index over some calls of `listGET_OWNER_OF_NEXT_ENTRY`. -/
def visits (l : L) : ℕ → Heap Item L → List (Node Item L)
  | 0, _ => []
  | n + 1, h => (nextEntry l h).pxIndex l :: visits l n (nextEntry l h)

/-- What was visited goes to the end of the order. -/
theorem visits_ahead (hr : Represents h w) (hahead : ahead (w.index l) (w.items l) = l₁ ++ l₂) :
    visits l l₁.length h = l₁.map .item := by
  induction l₁ generalizing h w l₂ with
  | nil => rfl
  | cons j l₁ ih =>
    obtain ⟨hnext, hlast⟩ := ahead_step (hr.indexMem l) (hr.nodup l) hahead
    have hr' := hr.nextEntry l
    have hindex : (w.goOn l).index l = some j := w.goOn_index_self.trans hnext
    have hahead' : ahead ((w.goOn l).index l) ((w.goOn l).items l) = l₁ ++ (l₂ ++ [j]) := by
      rw [hindex]
      exact hlast.trans (List.append_assoc ..)
    rw [List.length_cons, visits, hr'.index, hindex, ih hr' hahead', List.map_cons]
    rfl

theorem Represents.visits (hr : Represents h w) (l : L) :
    (visits l (h.uxNumberOfItems l) h).Nodup ∧
      ∀ p, p ∈ KernelLists.visits l (h.uxNumberOfItems l) h ↔ ∃ i, p = .item i ∧ h.pxContainer i = some l := by
  have hperm := ahead_perm (hr.indexMem l)
  have hvisits : KernelLists.visits l (h.uxNumberOfItems l) h = (ahead (w.index l) (w.items l)).map .item := by
    rw [hr.number, ← hperm.length_eq]
    exact visits_ahead hr (List.append_nil _).symm
  rw [hvisits]
  refine ⟨(hperm.nodup_iff.mpr (hr.nodup l)).map fun _ _ => Node.item.inj, fun p => ?_⟩
  rw [List.mem_map, hr.container]
  constructor
  · rintro ⟨i, hi, rfl⟩
    exact ⟨i, rfl, (hr.holder i l).mpr (hperm.mem_iff.mp hi)⟩
  · rintro ⟨i, rfl, hi⟩
    exact ⟨i, hperm.mem_iff.mpr ((hr.holder i l).mp hi), rfl⟩

end

/-! ### Values -/

section
variable {Item L : Type*} {h : Heap Item L} {w w' : View Item L} {l m : L} {i j : Item} {v : UInt32}

/-- An item as the scheduler sees it, a task with its wake-up time. -/
def timedItem (value : Item → UInt32) (i : Item) : TaskDelay.Item Item :=
  { task := i, xItemValue := (value i).toNat }

def timed (w : View Item L) (l : L) : List (TaskDelay.Item Item) :=
  (w.items l).map (timedItem w.value)

theorem timed_congr (hitems : w'.items m = w.items l) (hvalue : ∀ j ∈ w.items l, w'.value j = w.value j) :
    timed w' m = timed w l := by
  rw [timed, hitems, timed]
  exact List.map_congr_left fun j hj => congrArg (fun u : UInt32 => TaskDelay.Item.mk j u.toNat) (hvalue j hj)

theorem Represents.next_item (hr : Represents h w) (hi : w.holder i = some l)
    (hsorted : TimedList.Sorted TaskDelay.Item.xItemValue (timed w l)) :
    h.links.next (.item i) = .xListEnd l ∨
      ∃ j, h.links.next (.item i) = .item j ∧ w.holder j = some l ∧ w.value i ≤ w.value j := by
  obtain ⟨l₁, l₂, hjs⟩ := List.append_of_mem ((hr.holder i l).mp hi)
  have hpath := (hr.ring l).path
  rw [hjs, List.map_append, List.map_cons] at hpath
  obtain ⟨hnext, -⟩ := path_head (path_append.mp hpath).2
  rw [hnext]
  cases l₂ with
  | nil => exact Or.inl rfl
  | cons j l₂ =>
    refine Or.inr ⟨j, rfl, (hr.holder j l).mpr ?_, ?_⟩
    · rw [hjs]
      exact List.mem_append_right l₁ (List.mem_cons_of_mem i List.mem_cons_self)
    · rw [timed, hjs, List.map_append, List.map_cons, List.map_cons, TimedList.Sorted, List.pairwise_append] at hsorted
      exact UInt32.le_iff_toNat_le.mpr ((List.pairwise_cons.mp hsorted.2.1).1 _ List.mem_cons_self)

theorem map_timedItem_insert (value : Item → UInt32) (i : Item) (js : List Item) :
    (TimedList.insert (fun j => (value j).toNat) i js).map (timedItem value) =
      TaskDelay.vListInsert (timedItem value i) (js.map (timedItem value)) := by
  have hkey : ∀ a b, (timedItem value a).xItemValue ≤ (timedItem value b).xItemValue ↔
      (value a).toNat ≤ (value b).toNat := fun _ _ => Iff.rfl
  exact TimedList.map_insert (timedItem value) hkey i js

variable [DecidableEq Item]

/-- The value of an item that is in no list does not count. -/
theorem Represents.value_other (hr : Represents h w) (hi : w.holder i = none) (hj : j ∈ w.items l) :
    Function.update w.value i v j = w.value j := by
  have hne : j ≠ i := fun heq => hr.not_mem hi l (heq ▸ hj)
  exact Function.update_of_ne hne ..

variable [DecidableEq L]

theorem Represents.timed_insert (hr : Represents h w) (hstep : viewStep (.insert l i v) w = some w') :
    timed w' l = TaskDelay.vListInsert { task := i, xItemValue := v.toNat } (timed w l) ∧
      ∀ m, m ≠ l → timed w' m = timed w m := by
  rw [viewStep] at hstep
  split at hstep
  next hi =>
    obtain rfl := Option.some.inj hstep
    refine ⟨?_, fun m hm => timed_congr (View.put_items_of_ne _ hm) fun j hj => hr.value_other hi hj⟩
    have hins := map_timedItem_insert (Function.update w.value i v) i (w.items l)
    have hmap : (w.items l).map (timedItem (Function.update w.value i v)) = timed w l :=
      (timed_congr rfl fun j hj => hr.value_other hi hj :
        timed { w with value := Function.update w.value i v } l = timed w l)
    have hnew : timedItem (Function.update w.value i v) i = { task := i, xItemValue := v.toNat } :=
      congrArg (fun u : UInt32 => TaskDelay.Item.mk i u.toNat) (Function.update_self ..)
    rw [hmap, hnew] at hins
    rw [timed, View.put_items_self]
    exact hins
  next => cases hstep

theorem Represents.timed_take (hr : Represents h w) (l : L) (i : Item) :
    timed (w.take l i) l = (timed w l).filter fun item => item.task ≠ i := by
  rw [timed, View.take_items_self, (hr.nodup l).erase_eq_filter, timed, List.filter_map]
  refine congrArg _ (List.filter_congr fun j _ => ?_)
  by_cases hji : j = i
  · simp [timedItem, hji]
  · simp [timedItem, hji]

/-- Only `vListInsertEnd` may put an item out of order. -/
theorem Represents.sorted_step (hr : Represents h w) {a : Action Item L} (ha : ∀ i, a ≠ .insertEnd l i)
    (hstep : viewStep a w = some w') (hsorted : TimedList.Sorted TaskDelay.Item.xItemValue (timed w l)) :
    TimedList.Sorted TaskDelay.Item.xItemValue (timed w' l) := by
  cases a with
  | insert m i v =>
    obtain ⟨hin, hother⟩ := hr.timed_insert hstep
    by_cases hm : l = m
    · subst hm
      rw [hin]
      exact hsorted.insert
    · rw [hother l hm]
      exact hsorted
  | insertEnd m i =>
    have hm : l ≠ m := by
      rintro rfl
      exact ha i rfl
    rw [viewStep] at hstep
    split at hstep
    next =>
      obtain rfl := Option.some.inj hstep
      rw [timed_congr (View.put_items_of_ne _ hm) fun _ _ => rfl]
      exact hsorted
    next => cases hstep
  | remove i =>
    obtain ⟨m, -, rfl⟩ := Option.map_eq_some_iff.mp hstep
    by_cases hm : l = m
    · subst hm
      rw [hr.timed_take]
      exact hsorted.filter _
    · rw [timed_congr (View.take_items_of_ne _ hm) fun _ _ => rfl]
      exact hsorted
  | next m =>
    obtain rfl := Option.some.inj hstep
    exact hsorted

end

/-! ### Runs -/

section
variable {Item L : Type*}

theorem represents_initial (xItemValue : Item → UInt32) :
    Represents (initialHeap xItemValue : Heap Item L) (initialView xItemValue) where
  ring _ := ⟨⟨rfl, rfl⟩, List.nodup_singleton _⟩
  holder _ _ := iff_of_false (Option.some_ne_none _).symm List.not_mem_nil
  container := rfl
  number _ := rfl
  index _ := rfl
  indexMem _ _ hj := absurd hj.symm (Option.some_ne_none _)
  value := rfl

variable [DecidableEq Item] [DecidableEq L]

theorem step_represents (a : Action Item L) (h : Heap Item L) (w : View Item L) (hr : Represents h w) :
    Option.Rel Represents (step a h) (viewStep a w) := by
  cases a with
  | insert l i v =>
    have hfree : h.pxContainer i = none ↔ w.holder i = none := by rw [hr.container]
    rw [step, viewStep]
    by_cases hi : w.holder i = none
    · rw [if_pos (hfree.mpr hi), if_pos hi]
      obtain ⟨h', heq, hr'⟩ := (hr.setValue i v).vListInsert l hi
      rw [heq]
      exact .some hr'
    · rw [if_neg fun hnone => hi (hfree.mp hnone), if_neg hi]
      exact .none
  | insertEnd l i =>
    rw [step, viewStep, hr.container]
    by_cases hi : w.holder i = none
    · rw [if_pos hi, if_pos hi]
      exact .some (hr.vListInsertEnd l hi)
    · rw [if_neg hi, if_neg hi]
      exact .none
  | remove i =>
    rw [step, viewStep, uxListRemove, hr.container]
    cases hi : w.holder i with
    | none => exact .none
    | some l => exact .some (hr.removed hi)
  | next l => exact .some (hr.nextEntry l)

theorem sorted_run {h h' : Heap Item L} {w : View Item L} {l : L} {as : List (Action Item L)}
    (has : ∀ a ∈ as, ∀ i, a ≠ .insertEnd l i) (hr : Represents h w)
    (hsorted : TimedList.Sorted TaskDelay.Item.xItemValue (timed w l)) (hrun : run step as h = some h') :
    ∃ w', Represents h' w' ∧ TimedList.Sorted TaskDelay.Item.xItemValue (timed w' l) := by
  induction as generalizing h w with
  | nil =>
    obtain rfl := Option.some.inj hrun
    exact ⟨w, hr, hsorted⟩
  | cons a as ih =>
    obtain ⟨h₁, hstep, hrest⟩ := (run_cons_some step).mp hrun
    obtain ⟨w₁, hview, hr₁⟩ := rel_some_left (step_represents a h w hr) hstep
    have hsorted₁ := hr.sorted_step (has a List.mem_cons_self) hview hsorted
    exact ih (fun b hb => has b (List.mem_cons_of_mem a hb)) hr₁ hsorted₁ hrest

/-- Whatever is done to the lists from their initialisation on, the links are rings through the items of the lists,
in the order in which the lists have them. -/
theorem lists_refine (xItemValue : Item → UInt32) (as : List (Action Item L)) :
    Option.Rel Represents (run step as (initialHeap xItemValue)) (run viewStep as (initialView xItemValue)) :=
  run_rel step_represents as (represents_initial xItemValue)

/-- As many calls of `listGET_OWNER_OF_NEXT_ENTRY` as the list has items give each of its items once. -/
theorem visits_round {xItemValue : Item → UInt32} {as : List (Action Item L)} {h : Heap Item L}
    (hrun : run step as (initialHeap xItemValue) = some h) (l : L) :
    (visits l (h.uxNumberOfItems l) h).Nodup ∧
      ∀ p, p ∈ visits l (h.uxNumberOfItems l) h ↔ ∃ i, p = .item i ∧ h.pxContainer i = some l := by
  obtain ⟨w, -, hr⟩ := rel_some_left (run_rel step_represents as (represents_initial xItemValue)) hrun
  exact hr.visits l

/-- In a list without a call of `vListInsertEnd` the values ascend along the links, up to the marker. -/
theorem values_ascend {xItemValue : Item → UInt32} {as : List (Action Item L)} {h : Heap Item L} {l : L}
    (hrun : run step as (initialHeap xItemValue) = some h) (has : ∀ a ∈ as, ∀ i, a ≠ .insertEnd l i) {i : Item}
    (hi : h.pxContainer i = some l) :
    h.links.next (.item i) = .xListEnd l ∨
      ∃ j, h.links.next (.item i) = .item j ∧ h.pxContainer j = some l ∧ h.xItemValue i ≤ h.xItemValue j := by
  have hempty : TimedList.Sorted TaskDelay.Item.xItemValue (timed (initialView xItemValue : View Item L) l) :=
    List.Pairwise.nil
  obtain ⟨w, hr, hsorted⟩ := sorted_run has (represents_initial xItemValue) hempty hrun
  rw [hr.container] at hi
  rw [hr.container, hr.value]
  exact hr.next_item hi hsorted

end

def sampleActions : List (Action ℕ Unit) :=
  [.insert () 1 7, .insert () 2 5, .next (), .insert () 3 7, .remove 2]

def sampleHeap : Option (Heap ℕ Unit) :=
  run step sampleActions (initialHeap fun _ => 0)

theorem sampleHeap_isSome : sampleHeap.isSome = true :=
  rfl

theorem visits_round_sample :
    (visits () 2 (sampleHeap.get sampleHeap_isSome)).Nodup ∧
      ∀ p, p ∈ visits () 2 (sampleHeap.get sampleHeap_isSome) ↔
        ∃ i, p = .item i ∧ (sampleHeap.get sampleHeap_isSome).pxContainer i = some () :=
  visits_round (Option.some_get sampleHeap_isSome).symm ()

theorem sampleActions_insertEnd : ∀ a ∈ sampleActions, ∀ i, a ≠ .insertEnd () i := by
  intro a ha i heq
  subst heq
  simp [sampleActions] at ha

theorem values_ascend_sample :
    (sampleHeap.get sampleHeap_isSome).links.next (.item 1) = .xListEnd () ∨
      ∃ j, (sampleHeap.get sampleHeap_isSome).links.next (.item 1) = .item j ∧
        (sampleHeap.get sampleHeap_isSome).pxContainer j = some () ∧
        (sampleHeap.get sampleHeap_isSome).xItemValue 1 ≤ (sampleHeap.get sampleHeap_isSome).xItemValue j :=
  values_ascend (Option.some_get sampleHeap_isSome).symm sampleActions_insertEnd rfl

end NbiotXY1100.KernelLists
