import NbiotXY1100.DoublyLinked
import NbiotXY1100.KeyedLists
import NbiotXY1100.StepRuns
import Mathlib.Data.Int.Notation

/-! # The dictionary of AT contexts

Contexts are kept in a doubly linked list and are found by their descriptor. Registration
walks the list and compares a node before it goes on to the next one, so the last node of a
list of several is not compared. -/
namespace NbiotXY1100.AtContext
open DoublyLinked StepRuns

def xyOk : ℤ := 0

def xyErr : ℤ := -1

def psSysMin : ℤ := 0

def nearpsDspFd : ℤ := 1

def nearpsUserFd : ℤ := 2

def farpsUartFd : ℤ := 3

def psSysMax : ℤ := 6

def farpsUserMin : ℤ := 8

def farpsUserProxy : ℤ := 8

def farpsUserMax : ℤ := 12

/-- A context in memory. -/
structure Context where
  addr : ℕ
  fd : ℤ
  deriving DecidableEq

/-- `g_at_context_dict` and the nodes in memory; their number bounds the loops. -/
structure Dict where
  cells : Cells Context
  allocated : ℕ
  head : Option ℕ

def Dict.empty : Dict := ⟨fun _ => none, 0, none⟩

/-- The loop of a registration: the node to append to, unless one that the loop leaves
behind has the descriptor. -/
def findEnd (m : Cells Context) (fd : ℤ) : ℕ → ℕ → Option (Option ℕ)
  | 0, _ => none
  | n + 1, a => (m a).bind fun dict =>
    match dict.next with
    | none => some (some a)
    | some b => if dict.item.fd = fd then some none else findEnd m fd n b

/-- `cell` is what `xy_malloc` returns; memory in use is not handed out. -/
def registerAtContext (cell : ℕ) (ctx : Context) (s : Dict) : Option (ℤ × Dict) :=
  match s.head with
  | none =>
    if (s.cells cell).isSome then none
    else some (xyOk, ⟨put s.cells cell (some ⟨none, ctx, none⟩), s.allocated + 1, some cell⟩)
  | some h => (s.cells h).bind fun first =>
    if first.item.fd = ctx.fd then some (xyErr, s)
    else (findEnd s.cells ctx.fd s.allocated h).bind fun found =>
      match found with
      | none => some (xyErr, s)
      | some last => (s.cells last).bind fun dict =>
        if (s.cells cell).isSome then none
        else some (xyOk, { s with
          cells := put (put s.cells cell (some ⟨some last, ctx, none⟩)) last (some { dict with next := some cell })
          allocated := s.allocated + 1 })

/-- The loop of `deregister_at_context` and `search_at_context`. -/
def findNode (m : Cells Context) (fd : ℤ) : ℕ → ℕ → Option (Option ℕ)
  | 0, _ => none
  | n + 1, a => (m a).bind fun temp =>
    if temp.item.fd = fd then some (some a)
    else match temp.next with
      | none => some none
      | some b => findNode m fd n b

/-- What the assertions of both functions let through. -/
def FdInRange (fd : ℤ) : Prop := psSysMin ≤ fd ∧ fd < psSysMax ∨ farpsUserMin ≤ fd ∧ fd ≤ farpsUserMax

instance (fd : ℤ) : Decidable (FdInRange fd) :=
  inferInstanceAs (Decidable (psSysMin ≤ fd ∧ fd < psSysMax ∨ farpsUserMin ≤ fd ∧ fd ≤ farpsUserMax))

/-- The first node has no predecessor, and taking it out writes through a null pointer. -/
def deregisterAtContext (fd : ℤ) (s : Dict) : Option (ℤ × Dict) :=
  if FdInRange fd then
    s.head.bind fun h => (findNode s.cells fd s.allocated h).bind fun found =>
      match found with
      | none => some (xyErr, s)
      | some a => (s.cells a).bind fun temp => temp.pre.bind fun p =>
        some (xyOk, { s with cells := unlink s.cells a temp p, allocated := s.allocated - 1 })
  else none

def searchAtContext (fd : ℤ) (s : Dict) : Option (Option Context) :=
  if FdInRange fd then
    s.head.bind fun h => (findNode s.cells fd s.allocated h).bind fun found =>
      match found with
      | none => some none
      | some a => (s.cells a).map fun temp => some temp.item
  else none

/-- The first descriptor that is not in use is taken; a registration that fails stops the system. -/
def firstAvail (addr cell : ℕ) (s : Dict) : List ℤ → Option (Option Context × Dict)
  | [] => some (none, s)
  | fd :: fds => (searchAtContext fd s).bind fun found =>
    match found with
    | some _ => firstAvail addr cell s fds
    | none => (registerAtContext cell ⟨addr, fd⟩ s).bind fun r =>
      if r.1 = xyErr then none else some (some ⟨addr, fd⟩, r.2)

/-- The descriptors for user tasks; the proxy has its own one. -/
def userFds (fromProxy : Bool) : List ℤ :=
  if fromProxy then [farpsUserProxy] else [farpsUserProxy + 1, farpsUserProxy + 2, farpsUserProxy + 3, farpsUserMax]

/-- `addr` is where the new context is allocated. -/
def getAvailAtctx4User (fromProxy : Bool) (addr cell : ℕ) (s : Dict) : Option (Option Context × Dict) :=
  firstAvail addr cell s (userFds fromProxy)

/-- The contexts of the DSP, the UART and the user responses with the memory for their nodes. -/
def initAtContext (nearps uart userRsp : ℕ × ℕ) : Option Dict :=
  (registerAtContext nearps.2 ⟨nearps.1, nearpsDspFd⟩ Dict.empty).bind fun r =>
    (registerAtContext uart.2 ⟨uart.1, farpsUartFd⟩ r.2).bind fun r =>
      (registerAtContext userRsp.2 ⟨userRsp.1, nearpsUserFd⟩ r.2).map Prod.snd

/-- A descriptor of a user task. -/
structure UserFd where
  fd : ℤ
  isUser : farpsUserMin ≤ fd ∧ fd ≤ farpsUserMax

inductive Call
  | register (cell : ℕ) (ctx : Context)
  | getAvail (fromProxy : Bool) (addr cell : ℕ)
  | deregister (user : UserFd)

def step : Call → Dict → Option Dict
  | .register cell ctx, s => (registerAtContext cell ctx s).map Prod.snd
  | .getAvail fromProxy addr cell, s => (getAvailAtctx4User fromProxy addr cell s).map Prod.snd
  | .deregister user, s => (deregisterAtContext user.fd s).map Prod.snd

/-- The contexts along the links. -/
def walk (m : Cells Context) : ℕ → Option ℕ → List Context
  | 0, _ => []
  | _ + 1, none => []
  | n + 1, some a =>
    match m a with
    | none => []
    | some dict => dict.item :: walk m n dict.next

def contexts (s : Dict) : List Context := walk s.cells s.allocated s.head

def fds (s : Dict) : List ℤ := (contexts s).map Context.fd

/-- The nodes are linked both ways, and there are no others. -/
structure Represents (s : Dict) (l : List (ℕ × Context)) : Prop where
  linked : Segment s.cells none s.head l none
  nodup : (l.map Prod.fst).Nodup
  length : l.length = s.allocated

/-- No descriptor is held twice, the links mirror each other, and a search gives the context
of a descriptor if there is one. -/
structure Sound (s : Dict) : Prop where
  linked : ∃ l, Represents s l
  unique : (fds s).Nodup
  search : ∀ fd, FdInRange fd → searchAtContext fd s = some ((contexts s).find? fun c => c.fd = fd)

/-- What a call does: a descriptor in use is refused, a context that is taken comes last, and
exactly the context of a descriptor is taken out. -/
def Correct : Call → Dict → Prop
  | .register cell ctx, s => s.cells cell = none →
    if ctx.fd ∈ fds s then registerAtContext cell ctx s = some (xyErr, s)
    else ∃ t, registerAtContext cell ctx s = some (xyOk, t) ∧ contexts t = contexts s ++ [ctx]
  | .getAvail fromProxy addr cell, s => s.cells cell = none →
    match (userFds fromProxy).find? fun fd => fd ∉ fds s with
    | none => getAvailAtctx4User fromProxy addr cell s = some (none, s)
    | some fd => ∃ t, getAvailAtctx4User fromProxy addr cell s = some (some ⟨addr, fd⟩, t) ∧
        contexts t = contexts s ++ [⟨addr, fd⟩]
  | .deregister user, s =>
    if user.fd ∈ fds s then ∃ t, deregisterAtContext user.fd s = some (xyOk, t) ∧
      contexts t = (contexts s).filter fun c => c.fd ≠ user.fd
    else deregisterAtContext user.fd s = some (xyErr, s)

/-- The condition: what is registered has not the descriptor of the last of several contexts. -/
def NotLast : Call → Dict → Prop
  | .register cell ctx, s => s.cells cell = none → ∀ cs c, contexts s = cs ++ [c] → cs ≠ [] → c.fd ≠ ctx.fd
  | _, _ => True

theorem walk_eq {m : Cells Context} {pre start : Option ℕ} {l : List (ℕ × Context)} (h : Segment m pre start l none)
    {n : ℕ} (hn : l.length ≤ n) : walk m n start = l.map Prod.snd := by
  induction l generalizing pre start n with
  | nil =>
    cases h
    cases n <;> rfl
  | cons c l ih =>
    obtain ⟨a, ctx⟩ := c
    obtain ⟨rfl, next, hcell, hrest⟩ := h
    cases n with
    | zero => cases hn
    | succ n =>
      rw [walk, hcell]
      exact congrArg _ (ih hrest (Nat.le_of_succ_le_succ hn))

theorem Represents.contexts_eq {s : Dict} {l : List (ℕ × Context)} (h : Represents s l) :
    contexts s = l.map Prod.snd := walk_eq h.linked (Nat.le_of_eq h.length)

theorem findNode_eq {m : Cells Context} {pre : Option ℕ} {a : ℕ} {l : List (ℕ × Context)} (fd : ℤ)
    (h : Segment m pre (some a) l none) {n : ℕ} (hn : l.length ≤ n) :
    findNode m fd n a = some ((l.find? fun c => c.2.fd = fd).map Prod.fst) := by
  induction l generalizing pre a n with
  | nil => cases h
  | cons c l ih =>
    obtain ⟨b, ctx⟩ := c
    obtain ⟨heq, next, hcell, hrest⟩ := h
    cases heq
    cases n with
    | zero => cases hn
    | succ n =>
      rw [findNode, hcell, Option.bind_some]
      dsimp only
      by_cases hfd : ctx.fd = fd
      · rw [if_pos hfd, List.find?_cons_of_pos (by simpa using hfd)]
        rfl
      · rw [if_neg hfd, List.find?_cons_of_neg (by simpa using hfd)]
        cases next with
        | none =>
          cases l with
          | nil => rfl
          | cons c l => cases hrest.1
        | some b => exact ih hrest (Nat.le_of_succ_le_succ hn)

/-- The loop of a registration compares all nodes but the last. -/
theorem findEnd_eq {m : Cells Context} {pre : Option ℕ} {a : ℕ} {l : List (ℕ × Context)} {z : ℕ × Context} (fd : ℤ)
    (h : Segment m pre (some a) (l ++ [z]) none) {n : ℕ} (hn : l.length + 1 ≤ n) :
    findEnd m fd n a = some (if l.any fun c => c.2.fd = fd then none else some z.1) := by
  induction l generalizing pre a n with
  | nil =>
    obtain ⟨heq, next, hcell, hrest⟩ := h
    cases heq
    cases hrest
    cases n with
    | zero => cases hn
    | succ n =>
      rw [findEnd, hcell, Option.bind_some]
      simp
  | cons c l ih =>
    obtain ⟨b, ctx⟩ := c
    obtain ⟨heq, next, hcell, hrest⟩ := h
    cases heq
    cases n with
    | zero => cases hn
    | succ n =>
      rw [findEnd, hcell, Option.bind_some]
      cases next with
      | none =>
        cases l with
        | nil => cases hrest.1
        | cons d l => cases hrest.1
      | some b =>
        dsimp only
        rw [ih hrest (Nat.le_of_succ_le_succ hn)]
        by_cases hfd : ctx.fd = fd
        · simp [hfd]
        · rw [if_neg hfd, List.any_cons, decide_eq_false hfd, Bool.false_or]

section
variable {s : Dict} {l : List (ℕ × Context)} (h : Represents s l) (hne : l ≠ [])
include h hne

theorem Represents.head_eq : ∃ a, s.head = some a := by
  obtain ⟨c, l', rfl⟩ := List.exists_cons_of_ne_nil hne
  exact ⟨c.1, h.linked.1⟩

theorem Represents.search {fd : ℤ} (hfd : FdInRange fd) :
    searchAtContext fd s = some ((contexts s).find? fun c => c.fd = fd) := by
  obtain ⟨a, ha⟩ := h.head_eq hne
  have hlinked := h.linked
  rw [ha] at hlinked
  rw [searchAtContext, if_pos hfd, ha, Option.bind_some, findNode_eq fd hlinked (Nat.le_of_eq h.length),
    Option.bind_some, h.contexts_eq, List.find?_map]
  cases hfind : l.find? fun c => c.2.fd = fd with
  | none =>
    have hnone : l.find? ((fun c => decide (c.fd = fd)) ∘ Prod.snd) = none := hfind
    rw [hnone]
    rfl
  | some c =>
    obtain ⟨pre, next, hcell⟩ := h.linked.cell (List.mem_of_find?_eq_some hfind)
    have hsome : l.find? ((fun c => decide (c.fd = fd)) ∘ Prod.snd) = some c := hfind
    rw [hsome]
    show (s.cells c.1).map _ = _
    rw [hcell]
    rfl

end

theorem represents_register_nil {cell : ℕ} {ctx : Context} :
    ∃ t, registerAtContext cell ctx Dict.empty = some (xyOk, t) ∧ Represents t [(cell, ctx)] := by
  refine ⟨_, rfl, ⟨rfl, none, put_self _ _ _, rfl⟩, List.nodup_singleton _, rfl⟩

/-- A registration in a dictionary whose last node is `z`: it is refused for a node before the
last or for the only node, and otherwise the context comes behind `z`. -/
theorem register_eq {s : Dict} {l : List (ℕ × Context)} {z : ℕ × Context} (h : Represents s (l ++ [z])) (cell : ℕ)
    (ctx : Context) :
    if (l.any fun c => c.2.fd = ctx.fd) ∨ l = [] ∧ z.2.fd = ctx.fd then registerAtContext cell ctx s = some (xyErr, s)
    else if (s.cells cell).isSome then registerAtContext cell ctx s = none
    else ∃ t, registerAtContext cell ctx s = some (xyOk, t) ∧ Represents t (l ++ [z] ++ [(cell, ctx)]) := by
  have hne : l ++ [z] ≠ [] := List.append_ne_nil_of_right_ne_nil l (List.cons_ne_nil z [])
  obtain ⟨first, rest, hcons⟩ := List.exists_cons_of_ne_nil hne
  have hlinked := h.linked
  rw [hcons] at hlinked
  obtain ⟨hhead, next, hfirst, -⟩ := hlinked
  have hlinked := h.linked
  rw [hhead] at hlinked
  have hlength : l.length + 1 ≤ s.allocated := by
    rw [← h.length, List.length_append]
    exact Nat.le_refl _
  have hmem : first ∈ l ∨ l = [] ∧ first = z := by
    cases l with
    | nil =>
      cases hcons
      exact Or.inr ⟨rfl, rfl⟩
    | cons c l =>
      cases hcons
      exact Or.inl List.mem_cons_self
  obtain ⟨zpre, znext, hz⟩ := h.linked.cell (List.mem_append_right l (List.mem_singleton_self z))
  by_cases hfound : (l.any fun c => c.2.fd = ctx.fd) ∨ l = [] ∧ z.2.fd = ctx.fd
  · rw [if_pos hfound, registerAtContext, hhead]
    dsimp only
    rw [hfirst, Option.bind_some]
    by_cases hsame : first.2.fd = ctx.fd
    · rw [if_pos hsame]
    · rw [if_neg hsame, findEnd_eq ctx.fd hlinked hlength, Option.bind_some]
      rcases hfound with hany | ⟨rfl, hzfd⟩
      · rw [if_pos hany]
      · rcases hmem with hmem | ⟨-, rfl⟩
        · cases hmem
        · exact absurd hzfd hsame
  · rw [if_neg hfound]
    rw [not_or, not_and] at hfound
    obtain ⟨hany, honly⟩ := hfound
    have hsame : first.2.fd ≠ ctx.fd := by
      rcases hmem with hmem | ⟨hnil, rfl⟩
      · intro heq
        exact hany (List.any_eq_true.mpr ⟨first, hmem, decide_eq_true heq⟩)
      · exact honly hnil
    have hregister : registerAtContext cell ctx s = if (s.cells cell).isSome then none
        else some (xyOk, ⟨put (put s.cells cell (some ⟨some z.1, ctx, none⟩)) z.1
          (some ⟨zpre, z.2, some cell⟩), s.allocated + 1, s.head⟩) := by
      rw [registerAtContext, hhead]
      dsimp only
      rw [hfirst, Option.bind_some, if_neg hsame, findEnd_eq ctx.fd hlinked hlength, Option.bind_some, if_neg hany]
      dsimp only
      rw [hz]
      rfl
    rw [hregister]
    by_cases hused : (s.cells cell).isSome
    · rw [if_pos hused, if_pos hused]
    · rw [if_neg hused, if_neg hused]
      have hfree : cell ∉ (l ++ [z]).map Prod.fst := by
        intro hmem
        obtain ⟨c, hc, rfl⟩ := List.mem_map.mp hmem
        obtain ⟨pre, next, hcell⟩ := h.linked.cell hc
        rw [hcell] at hused
        exact hused rfl
      have hznot : z.1 ∉ l.map Prod.fst := by
        have hnodup := h.nodup
        rw [List.map_append, List.nodup_append] at hnodup
        intro hmem
        exact hnodup.2.2 _ hmem _ (List.mem_singleton_self _) rfl
      refine ⟨_, rfl, h.linked.append ctx hz hznot hfree, ?_, ?_⟩
      · rw [List.map_append, List.nodup_append]
        refine ⟨h.nodup, List.nodup_singleton _, ?_⟩
        intro a ha b hb hab
        rw [List.map_singleton, List.mem_singleton] at hb
        have hcell : a = cell := hab.trans hb
        exact hfree (hcell ▸ ha)
      · rw [List.length_append, h.length]
        rfl

/-- Taking out the first node with a descriptor, which is not the head's. -/
theorem deregister_eq {s : Dict} {first : ℕ × Context} {l : List (ℕ × Context)} (h : Represents s (first :: l)) {fd : ℤ}
    (hfd : FdInRange fd) (hfirst : first.2.fd ≠ fd) :
    if l.any fun c => c.2.fd = fd then ∃ t, deregisterAtContext fd s = some (xyOk, t) ∧
      Represents t (first :: l.eraseP fun c => c.2.fd = fd)
    else deregisterAtContext fd s = some (xyErr, s) := by
  have hlinked := h.linked
  have hhead : s.head = some first.1 := hlinked.1
  rw [hhead] at hlinked
  have hfind := findNode_eq fd hlinked (Nat.le_of_eq h.length)
  rw [List.find?_cons_of_neg (by simpa using hfirst)] at hfind
  by_cases hany : l.any fun c => c.2.fd = fd
  · rw [if_pos hany]
    obtain ⟨c, hc⟩ := Option.isSome_iff_exists.mp (List.find?_isSome.mpr (List.any_eq_true.mp hany))
    obtain ⟨hcfd, l₁, l₂, rfl, hbefore⟩ := List.find?_eq_some_iff_append.mp hc
    have hhere : (c :: l₂).eraseP (fun c => c.2.fd = fd) = l₂ := List.eraseP_cons_of_pos hcfd
    have herase : (l₁ ++ c :: l₂).eraseP (fun c => c.2.fd = fd) = l₁ ++ l₂ := by
      rw [List.eraseP_append_right _ fun d hd => by simpa using hbefore d hd, hhere]
    obtain ⟨l₀, p, y, hlast⟩ : ∃ l₀ p y, first :: l₁ = l₀ ++ [(p, y)] :=
      ⟨(first :: l₁).dropLast, ((first :: l₁).getLast (List.cons_ne_nil _ _)).1,
        ((first :: l₁).getLast (List.cons_ne_nil _ _)).2, (List.dropLast_append_getLast _).symm⟩
    have hsplit : first :: (l₁ ++ c :: l₂) = l₀ ++ (p, y) :: c :: l₂ := by
      rw [← List.cons_append, hlast, List.append_assoc]
      rfl
    have hjoin : first :: (l₁ ++ l₂) = l₀ ++ (p, y) :: l₂ := by
      rw [← List.cons_append, hlast, List.append_assoc]
      rfl
    have hnodup := h.nodup
    have hlength := h.length
    have hseg := h.linked
    rw [hsplit] at hnodup hlength hseg
    obtain ⟨mid, -, rfl, next, -, rfl, next', hcell, -⟩ := segment_append.mp hseg
    rw [hc] at hfind
    refine ⟨{ s with cells := unlink s.cells c.1 ⟨some p, c.2, next'⟩ p, allocated := s.allocated - 1 }, ?_, ?_⟩
    · rw [deregisterAtContext, if_pos hfd, hhead, Option.bind_some, hfind, Option.bind_some]
      dsimp only [Option.map_some]
      rw [hcell]
      simp
    · rw [herase, hjoin]
      refine ⟨?_, ?_, ?_⟩
      · exact Segment.unlink hseg hcell hnodup
      · exact ((((List.sublist_cons_self c l₂).cons_cons (p, y)).append_left l₀).map Prod.fst).nodup hnodup
      · show _ = s.allocated - 1
        rw [← hlength]
        simp
  · rw [if_neg hany]
    have hnone : (l.find? fun c => c.2.fd = fd) = none := by
      apply List.find?_eq_none.mpr
      intro c hc hcfd
      exact hany (List.any_eq_true.mpr ⟨c, hc, hcfd⟩)
    rw [hnone] at hfind
    rw [deregisterAtContext, if_pos hfd, hhead, Option.bind_some, hfind, Option.bind_some]
    rfl

/-- The dictionary starts with the context of the DSP, which no call takes out. -/
def Started (s : Dict) : Prop := ∃ first l, Represents s (first :: l) ∧ first.2.fd = nearpsDspFd

theorem Started.search {s : Dict} (h : Started s) {fd : ℤ} (hfd : FdInRange fd) :
    searchAtContext fd s = some ((contexts s).find? fun c => c.fd = fd) := by
  obtain ⟨first, l, hrep, -⟩ := h
  exact hrep.search (List.cons_ne_nil _ _) hfd

theorem Started.sound_iff {s : Dict} (h : Started s) : Sound s ↔ (fds s).Nodup := by
  constructor
  · exact Sound.unique
  · intro hnodup
    obtain ⟨first, l, hrep, -⟩ := h
    exact ⟨⟨_, hrep⟩, hnodup, fun fd hfd => hrep.search (List.cons_ne_nil _ _) hfd⟩

/-- A registration keeps the start of the dictionary. What it does is right, and keeps the
descriptors distinct, unless the last of several contexts has the descriptor. -/
theorem register_spec {s : Dict} (h : Started s) (hnodup : (fds s).Nodup) (cell : ℕ) (ctx : Context) :
    (∀ r, registerAtContext cell ctx s = some r → Started r.2 ∧ ((fds r.2).Nodup ↔ NotLast (.register cell ctx) s) ∧
        (contexts r.2 = contexts s ∨ contexts r.2 = contexts s ++ [ctx])) ∧
      (NotLast (.register cell ctx) s → Correct (.register cell ctx) s) := by
  have hstarted := h
  obtain ⟨first, l, hrep, hfirst⟩ := h
  obtain ⟨l₀, z, hlast⟩ : ∃ l₀ z, first :: l = l₀ ++ [z] :=
    ⟨_, _, (List.dropLast_append_getLast (List.cons_ne_nil first l)).symm⟩
  have hrep' := hrep
  rw [hlast] at hrep'
  have hcontexts : contexts s = l₀.map Prod.snd ++ [z.2] := by
    rw [hrep'.contexts_eq, List.map_append, List.map_singleton]
  have hfds : fds s = (l₀.map Prod.snd).map Context.fd ++ [z.2.fd] := by
    rw [fds, hcontexts, List.map_append, List.map_singleton]
  have hany : (l₀.any fun c => c.2.fd = ctx.fd) ↔ ctx.fd ∈ (l₀.map Prod.snd).map Context.fd := by
    simp
  have hz : z.2.fd ∉ (l₀.map Prod.snd).map Context.fd := by
    rw [hfds, List.nodup_append] at hnodup
    intro hmem
    exact hnodup.2.2 _ hmem _ (List.mem_singleton_self _) rfl
  have hsplit : ∀ cs c, contexts s = cs ++ [c] → cs = l₀.map Prod.snd ∧ c = z.2 := by
    intro cs c heq
    rw [hcontexts] at heq
    obtain ⟨hcs, hc⟩ := List.append_inj' heq rfl
    exact ⟨hcs.symm, (List.singleton_inj.mp hc).symm⟩
  have hregister := register_eq hrep' cell ctx
  by_cases hrefused : (l₀.any fun c => c.2.fd = ctx.fd) ∨ l₀ = [] ∧ z.2.fd = ctx.fd
  · rw [if_pos hrefused] at hregister
    have hmem : ctx.fd ∈ fds s := by
      rw [hfds]
      rcases hrefused with hfound | ⟨-, heq⟩
      · exact List.mem_append_left _ (hany.mp hfound)
      · exact List.mem_append_right _ (List.mem_singleton.mpr heq.symm)
    have hnotLast : NotLast (.register cell ctx) s := by
      intro _ cs c hcs hne heq
      obtain ⟨rfl, rfl⟩ := hsplit cs c hcs
      rcases hrefused with hfound | ⟨rfl, -⟩
      · exact hz (heq ▸ hany.mp hfound)
      · exact hne rfl
    refine ⟨fun r hr => ?_, fun _ _ => ?_⟩
    · rw [hregister] at hr
      cases hr
      exact ⟨hstarted, iff_of_true hnodup hnotLast, Or.inl rfl⟩
    · rw [if_pos hmem]
      exact hregister
  · rw [if_neg hrefused] at hregister
    rw [not_or, not_and, hany] at hrefused
    obtain ⟨hnot, honly⟩ := hrefused
    by_cases hused : (s.cells cell).isSome
    · rw [if_pos hused] at hregister
      refine ⟨fun r hr => ?_, fun _ hfree => ?_⟩
      · rw [hregister] at hr
        cases hr
      · rw [hfree] at hused
        cases hused
    · rw [if_neg hused] at hregister
      obtain ⟨t, hregister, ht⟩ := hregister
      have hfree : s.cells cell = none := Option.not_isSome_iff_eq_none.mp hused
      have hcontexts' : contexts t = contexts s ++ [ctx] := by
        rw [ht.contexts_eq, hcontexts]
        simp
      have hfds' : fds t = fds s ++ [ctx.fd] := by
        rw [fds, hcontexts', List.map_append]
        rfl
      have hlastFd : NotLast (.register cell ctx) s ↔ z.2.fd ≠ ctx.fd := by
        constructor
        · intro hnotLast
          by_cases hnil : l₀ = []
          · exact honly hnil
          · exact hnotLast hfree _ _ hcontexts fun hmap => hnil (List.map_eq_nil_iff.mp hmap)
        · intro hne _ cs c hcs _
          obtain ⟨-, rfl⟩ := hsplit cs c hcs
          exact hne
      have hmem : ctx.fd ∉ fds s ↔ z.2.fd ≠ ctx.fd := by
        rw [hfds, List.mem_append, List.mem_singleton, not_or, Ne, eq_comm]
        exact ⟨And.right, fun hne => ⟨hnot, hne⟩⟩
      refine ⟨fun r hr => ?_, fun hnotLast _ => ?_⟩
      · rw [hregister] at hr
        cases hr
        refine ⟨⟨first, l ++ [(cell, ctx)], ?_, hfirst⟩, ?_, Or.inr hcontexts'⟩
        · rw [← List.cons_append, hlast]
          exact ht
        · rw [hlastFd, hfds', List.nodup_append, ← hmem]
          constructor
          · rintro ⟨-, -, hapart⟩ hin
            exact hapart _ hin _ (List.mem_singleton_self _) rfl
          · intro hin
            refine ⟨hnodup, List.nodup_singleton _, ?_⟩
            intro a ha b hb hab
            rw [List.mem_singleton] at hb
            exact hin (hb ▸ hab ▸ ha)
      · rw [if_neg (hmem.mpr (hlastFd.mp hnotLast))]
        exact ⟨t, hregister, hcontexts'⟩

/-- A descriptor that a search does not find is not that of the last context either. -/
theorem notLast_of_unused {s : Dict} {ctx : Context} (h : ctx.fd ∉ fds s) (cell : ℕ) :
    NotLast (.register cell ctx) s := by
  intro _ cs c hcs _ heq
  apply h
  rw [fds, hcs, List.map_append, List.mem_append]
  exact Or.inr (List.mem_singleton.mpr heq.symm)

theorem firstAvail_eq {s : Dict} (h : Started s) (addr cell : ℕ) (l : List ℤ) (hl : ∀ fd ∈ l, FdInRange fd) :
    firstAvail addr cell s l = match l.find? fun fd => fd ∉ fds s with
      | none => some (none, s)
      | some fd => (registerAtContext cell ⟨addr, fd⟩ s).bind fun r =>
          if r.1 = xyErr then none else some (some ⟨addr, fd⟩, r.2) := by
  induction l with
  | nil => rfl
  | cons fd l ih =>
    rw [firstAvail, h.search (hl fd List.mem_cons_self), Option.bind_some]
    by_cases hmem : fd ∈ fds s
    · obtain ⟨c, hc, hfd⟩ := List.mem_map.mp hmem
      obtain ⟨found, hfound⟩ := Option.isSome_iff_exists.mp
        (List.find?_isSome.mpr ⟨c, hc, decide_eq_true hfd⟩ : ((contexts s).find? fun c => c.fd = fd).isSome)
      rw [hfound, List.find?_cons_of_neg (by simpa using hmem)]
      exact ih fun fd hfd => hl fd (List.mem_cons_of_mem _ hfd)
    · have hnone : ((contexts s).find? fun c => c.fd = fd) = none := by
        apply List.find?_eq_none.mpr
        intro c hc hfd
        exact hmem (List.mem_map.mpr ⟨c, hc, of_decide_eq_true hfd⟩)
      rw [hnone, List.find?_cons_of_pos (by simpa using hmem)]

theorem userFds_inRange (fromProxy : Bool) : ∀ fd ∈ userFds fromProxy, FdInRange fd := by
  cases fromProxy <;> decide

theorem getAvail_spec {s : Dict} (h : Started s) (hnodup : (fds s).Nodup) (fromProxy : Bool) (addr cell : ℕ) :
    (∀ r, getAvailAtctx4User fromProxy addr cell s = some r → Started r.2 ∧ (fds r.2).Nodup) ∧
      Correct (.getAvail fromProxy addr cell) s := by
  have heq := firstAvail_eq h addr cell (userFds fromProxy) (userFds_inRange fromProxy)
  rw [Correct]
  cases hfind : (userFds fromProxy).find? fun fd => fd ∉ fds s with
  | none =>
    rw [hfind] at heq
    refine ⟨fun r hr => ?_, fun _ => heq⟩
    cases heq.symm.trans hr
    exact ⟨h, hnodup⟩
  | some fd =>
    rw [hfind] at heq
    have hunused : fd ∉ fds s := by simpa using List.find?_some hfind
    have hnotLast := @notLast_of_unused s ⟨addr, fd⟩ hunused cell
    obtain ⟨hkeeps, hcorrect⟩ := register_spec h hnodup cell ⟨addr, fd⟩
    refine ⟨fun r hr => ?_, fun hfree => ?_⟩
    · obtain ⟨r', hr', hout⟩ := Option.bind_eq_some_iff.mp (heq.symm.trans hr)
      obtain ⟨hstarted, hiff, -⟩ := hkeeps r' hr'
      split at hout
      next => cases hout
      next =>
        cases hout
        exact ⟨hstarted, hiff.mpr hnotLast⟩
    · have hresult := hcorrect hnotLast hfree
      rw [if_neg hunused] at hresult
      obtain ⟨t, ht, hcontexts⟩ := hresult
      refine ⟨t, heq.trans ?_, hcontexts⟩
      dsimp only
      rw [ht]
      rfl

theorem deregister_spec {s : Dict} (h : Started s) (hnodup : (fds s).Nodup) (user : UserFd) :
    (∀ r, deregisterAtContext user.fd s = some r → Started r.2 ∧ (fds r.2).Nodup) ∧ Correct (.deregister user) s := by
  have hstarted := h
  obtain ⟨first, l, hrep, hfirst⟩ := h
  have hinRange : FdInRange user.fd := Or.inr user.isUser
  have hother : first.2.fd ≠ user.fd := by
    have hmin := user.isUser.1
    rw [hfirst]
    unfold farpsUserMin at hmin
    unfold nearpsDspFd
    omega
  have hcontexts : contexts s = first.2 :: l.map Prod.snd := hrep.contexts_eq
  have hmem : user.fd ∈ fds s ↔ l.any fun c => c.2.fd = user.fd := by
    rw [fds, hcontexts]
    simp [hother.symm]
  have hderegister := deregister_eq hrep hinRange hother
  by_cases hany : l.any fun c => c.2.fd = user.fd
  · rw [if_pos hany] at hderegister
    obtain ⟨t, hresult, ht⟩ := hderegister
    have hleft : contexts t = (contexts s).filter fun c => c.fd ≠ user.fd := by
      have hkeys := KeyedLists.eraseP_key hnodup user.fd
      rw [ht.contexts_eq, ← hkeys, hcontexts, List.map_cons, List.eraseP_cons_of_neg (by simpa using hother)]
      rw [List.eraseP_map]
      rfl
    refine ⟨fun r hr => ?_, ?_⟩
    · cases hresult.symm.trans hr
      refine ⟨⟨first, _, ht, hfirst⟩, ?_⟩
      rw [fds, hleft]
      exact (List.filter_sublist.map _).nodup hnodup
    · rw [Correct, if_pos (hmem.mpr hany)]
      exact ⟨t, hresult, hleft⟩
  · rw [if_neg hany] at hderegister
    refine ⟨fun r hr => ?_, ?_⟩
    · cases hderegister.symm.trans hr
      exact ⟨hstarted, hnodup⟩
    · rw [Correct, if_neg (mt hmem.mp hany)]
      exact hderegister

theorem initAtContext_started {nearps uart userRsp : ℕ × ℕ} {s : Dict} (h : initAtContext nearps uart userRsp = some s) :
    Started s ∧ (fds s).Nodup := by
  obtain ⟨r₁, h₁, h⟩ := Option.bind_eq_some_iff.mp h
  obtain ⟨r₂, h₂, h⟩ := Option.bind_eq_some_iff.mp h
  obtain ⟨r₃, h₃, rfl⟩ := Option.map_eq_some_iff.mp h
  obtain ⟨t, ht, hrep⟩ := @represents_register_nil nearps.2 ⟨nearps.1, nearpsDspFd⟩
  cases ht.symm.trans h₁
  have hstarted₁ : Started t := ⟨_, [], hrep, rfl⟩
  have hcontexts₁ : contexts t = [⟨nearps.1, nearpsDspFd⟩] := hrep.contexts_eq
  have hfds₁ : fds t = [nearpsDspFd] := by
    rw [fds, hcontexts₁]
    rfl
  have hnodup₁ : (fds t).Nodup := by
    rw [hfds₁]
    exact List.nodup_singleton _
  have hunused₁ : farpsUartFd ∉ fds t := by
    rw [hfds₁]
    decide
  obtain ⟨hstarted₂, hiff₂, hcontexts₂⟩ := (register_spec hstarted₁ hnodup₁ uart.2 ⟨uart.1, farpsUartFd⟩).1 r₂ h₂
  have hnodup₂ := hiff₂.mpr (notLast_of_unused hunused₁ _)
  have hunused₂ : nearpsUserFd ∉ fds r₂.2 := by
    unfold fds
    rcases hcontexts₂ with hsame | hnew
    · rw [hsame, hcontexts₁]
      simp [nearpsUserFd, nearpsDspFd]
    · rw [hnew, hcontexts₁]
      simp [nearpsUserFd, nearpsDspFd, farpsUartFd]
  obtain ⟨hstarted₃, hiff₃, -⟩ := (register_spec hstarted₂ hnodup₂ userRsp.2 ⟨userRsp.1, nearpsUserFd⟩).1 r₃ h₃
  exact ⟨hstarted₃, hiff₃.mpr (notLast_of_unused hunused₂ _)⟩

/-- A step keeps the start, and keeps the dictionary sound exactly under the condition. -/
theorem step_sound {a : Call} {s s' : Dict} (h : Started s) (hs : Sound s) (hstep : step a s = some s') :
    Started s' ∧ (Sound s' ↔ NotLast a s) := by
  cases a with
  | register cell ctx =>
    obtain ⟨r, hr, rfl⟩ := Option.map_eq_some_iff.mp hstep
    obtain ⟨hstarted, hiff, -⟩ := (register_spec h hs.unique cell ctx).1 r hr
    exact ⟨hstarted, hstarted.sound_iff.trans hiff⟩
  | getAvail fromProxy addr cell =>
    obtain ⟨r, hr, rfl⟩ := Option.map_eq_some_iff.mp hstep
    obtain ⟨hstarted, hnodup⟩ := (getAvail_spec h hs.unique fromProxy addr cell).1 r hr
    exact ⟨hstarted, iff_of_true (hstarted.sound_iff.mpr hnodup) trivial⟩
  | deregister user =>
    obtain ⟨r, hr, rfl⟩ := Option.map_eq_some_iff.mp hstep
    obtain ⟨hstarted, hnodup⟩ := (deregister_spec h hs.unique user).1 r hr
    exact ⟨hstarted, iff_of_true (hstarted.sound_iff.mpr hnodup) trivial⟩

theorem correct_of_notLast {a : Call} {s : Dict} (h : Started s) (hs : Sound s) (hlast : NotLast a s) : Correct a s := by
  cases a with
  | register cell ctx => exact (register_spec h hs.unique cell ctx).2 hlast
  | getAvail fromProxy addr cell => exact (getAvail_spec h hs.unique fromProxy addr cell).2
  | deregister user => exact (deregister_spec h hs.unique user).2

/-- The memory that a refused registration was given is in use. -/
theorem notLast_of_refused {a : Call} {s : Dict} (h : Started s) (hstep : step a s = none) : NotLast a s := by
  cases a with
  | register cell ctx =>
    obtain ⟨first, l, hrep, -⟩ := h
    obtain ⟨l₀, z, hlast⟩ : ∃ l₀ z, first :: l = l₀ ++ [z] :=
      ⟨_, _, (List.dropLast_append_getLast (List.cons_ne_nil first l)).symm⟩
    rw [hlast] at hrep
    have hregister := register_eq hrep cell ctx
    have hnone : registerAtContext cell ctx s = none := Option.map_eq_none_iff.mp hstep
    intro hfree
    rw [hfree, hnone] at hregister
    split at hregister
    next => cases hregister
    next =>
      rw [if_neg (by simp)] at hregister
      obtain ⟨t, ht, -⟩ := hregister
      cases ht
  | getAvail fromProxy addr cell => trivial
  | deregister user => trivial

/-- From the initial dictionary on every state is sound and every call does what it should, exactly
if none registers the descriptor of the last of several contexts. -/
theorem alwaysSound_iff {nearps uart userRsp : ℕ × ℕ} {s : Dict} (h : initAtContext nearps uart userRsp = some s)
    (calls : List Call) :
    Always step Sound calls s ∧ Along step Correct calls s ↔ Along step NotLast calls s := by
  obtain ⟨hstarted, hnodup⟩ := initAtContext_started h
  have hsound := hstarted.sound_iff.mpr hnodup
  have hiff := @always_iff_along_of _ _ step Started Sound NotLast (fun _ _ _ => step_sound)
    (fun _ _ hstr _ => notLast_of_refused hstr) calls s hstarted hsound
  constructor
  · exact fun hall => hiff.mp hall.1
  · intro hlast
    refine ⟨hiff.mpr hlast, ?_⟩
    have hkeep : ∀ a t t', Started t ∧ Sound t → NotLast a t → step a t = some t' → Started t' ∧ Sound t' := by
      intro a t t' ht hlast hstep
      obtain ⟨hstarted', hiff'⟩ := step_sound ht.1 ht.2 hstep
      exact ⟨hstarted', hiff'.mpr hlast⟩
    exact along_imp (fun _ _ ht => correct_of_notLast ht.1 ht.2) hkeep ⟨hstarted, hsound⟩ hlast

/-- A user context comes and goes. -/
theorem alwaysSound_iff_user : ∃ s, initAtContext (0, 0) (1, 1) (2, 2) = some s ∧
    Always step Sound [.getAvail false 3 3, .deregister ⟨9, by decide⟩] s ∧
    Along step Correct [.getAvail false 3 3, .deregister ⟨9, by decide⟩] s :=
  ⟨_, rfl, (@alwaysSound_iff (0, 0) (1, 1) (2, 2) _ rfl _).mpr
    ⟨trivial, fun _ _ => ⟨trivial, fun _ _ => trivial⟩⟩⟩

/-- After the start a second context for the user responses is taken too. -/
theorem not_alwaysSound : ¬ ∀ (nearps uart userRsp : ℕ × ℕ) (s : Dict) (calls : List Call),
    initAtContext nearps uart userRsp = some s → Always step Sound calls s ∧ Along step Correct calls s := by
  intro h
  obtain ⟨halways, -⟩ := h (0, 0) (1, 1) (2, 2) _ [.register 3 ⟨3, nearpsUserFd⟩] rfl
  have hunique := (halways 1 _ rfl).unique
  exact absurd hunique (by decide)

end NbiotXY1100.AtContext
