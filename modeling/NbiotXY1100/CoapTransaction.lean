import NbiotXY1100.StepRuns
import Mathlib.Data.List.Basic
import Mathlib.Algebra.GroupWithZero.Nat

/-! # CoAP transactions

A confirmable message is kept in a transaction until it is answered or was sent often enough. `transaction.c`
keeps the transactions in a list that is sorted by their message ids and removes them by these. -/
namespace NbiotXY1100.CoapTransaction
open StepRuns

def coapResponseTimeout : ℕ := 4
def coapMaxRetransmit : ℕ := 4

/-- `lwm2m_transaction_t`. The handle stands for its address. `token` is the token of a request that has one; a
response, or a request without a token, is finished by its ACK. -/
structure Transaction where
  handle : ℕ
  mID : ℕ
  peerH : ℕ
  token : Option (List UInt8)
  ackReceived : Bool
  retransTime : ℕ
  retransCounter : ℕ
  responseTimeout : ℕ

inductive MessageType where
  | con
  | non
  | ack
  | rst
  deriving DecidableEq

/-- What a transaction reads of a received message. -/
structure Received where
  fromSessionH : ℕ
  type : MessageType
  mid : ℕ
  unauthorized : Bool
  token : List UInt8

/-- A transmission, and the call of the callback with the answer or without one. -/
inductive Event where
  | sent (handle now : ℕ)
  | done (handle now : ℕ) (answered : Bool)

def Event.handle : Event → ℕ
  | .sent h _ | .done h _ _ => h

/-- The list of transactions, what happened, and the next handle. -/
structure Context where
  transactionList : List Transaction
  log : List Event
  next : ℕ

/-- The loop of `lwm2m_list_add` behind the head of the list. -/
def addBehind (t : Transaction) : List Transaction → List Transaction
  | [] => [t]
  | u :: us => if u.mID < t.mID then u :: addBehind t us else t :: u :: us

def lwm2mListAdd (t : Transaction) : List Transaction → List Transaction
  | [] => [t]
  | u :: us => if t.mID < u.mID then t :: u :: us else u :: addBehind t us

/-- The loop of `lwm2m_list_remove` behind the head of the list. -/
def removeBehind (id : ℕ) : List Transaction → List Transaction
  | [] => []
  | u :: us =>
    if u.mID < id then u :: removeBehind id us
    else if u.mID = id then us
    else u :: us

def lwm2mListRemove (id : ℕ) : List Transaction → List Transaction
  | [] => []
  | u :: us => if u.mID = id then us else u :: removeBehind id us

/-- The transaction behind a pointer is changed. -/
def store (t : Transaction) (list : List Transaction) : List Transaction :=
  list.map fun u => if u.handle = t.handle then t else u

/-- `xy_transaction_send`: whether the message is sent, and the transaction unless it fails. -/
def transactionSend (now : ℕ) (t : Transaction) : Bool × Option Transaction :=
  if t.ackReceived then (false, none)
  else
    let timeout :=
      if t.retransCounter = 0 then 0
      else if t.retransCounter ≤ 4 then coapResponseTimeout * 2 ^ (t.retransCounter - 1)
      else coapResponseTimeout * 2 ^ 3
    let maxRetriesReached := t.retransCounter = 0 ∧ now = 0
    let t :=
      if t.retransCounter = 0 ∧ now ≠ 0 then
        { t with retransTime := now + coapResponseTimeout, retransCounter := 1 }
      else t
    if t.retransCounter ≤ coapMaxRetransmit then
      (true, if maxRetriesReached then none
        else some { t with retransTime := t.retransTime + timeout, retransCounter := t.retransCounter + 1 })
    else (false, none)

/-- The transaction is changed or, with a call of its callback, removed by its message id. -/
def settle (now : ℕ) (answered : Bool) (t : Transaction) (c : Context) : Option Transaction → Context
  | some t' => { c with transactionList := store t' c.transactionList }
  | none =>
    { c with
      transactionList := lwm2mListRemove t.mID c.transactionList
      log := c.log ++ [.done t.handle now answered] }

def xyTransactionSend (now : ℕ) (t : Transaction) (c : Context) : Context :=
  let (isSent, result) := transactionSend now t
  settle now false t (if isSent then { c with log := c.log ++ [.sent t.handle now] } else c) result

/-- The loop reads each transaction before anything else changes it. -/
def xyTransactionStep (now : ℕ) (c : Context) : Context :=
  c.transactionList.foldl (fun c t => if t.retransTime ≤ now then xyTransactionSend now t c else c) c

/-- `prv_checkFinished`. -/
def checkFinished (t : Transaction) (message : Received) : Bool :=
  match t.token with
  | none => t.ackReceived
  | some token => token == message.token

/-- The message is the ACK or the RST of the transaction's message. -/
def found (message : Received) (t : Transaction) : Bool :=
  !t.ackReceived && (message.type = .ack || message.type = .rst) && t.mID = message.mid

def acknowledged (message : Received) (t : Transaction) : Transaction :=
  if found message t then { t with ackReceived := true } else t

/-- One round of the loop of `xy_transaction_handleResponse`: `none` goes on to the next transaction. -/
def handleOne (now : ℕ) (message : Received) (t : Transaction) : Option (Option Transaction) :=
  if message.fromSessionH = t.peerH then
    let reset := found message t && message.type = .rst
    let t' := acknowledged message t
    if reset || checkFinished t' message then
      if !reset && message.unauthorized && t'.retransCounter < coapMaxRetransmit then
        some (some { t' with ackReceived := false, retransTime := t'.retransTime + coapResponseTimeout })
      else some none
    else if found message t then
      let start := if now = 0 then t'.retransTime else now
      some (some { t' with retransTime :=
        start + if t'.responseTimeout = 0 then coapResponseTimeout * t'.retransCounter else t'.responseTimeout })
    else none
  else none

def xyTransactionHandleResponse (now : ℕ) (message : Received) (c : Context) : Context :=
  match c.transactionList.find? fun t => (handleOne now message t).isSome with
  | none => c
  | some t => settle now true t c ((handleOne now message t).getD none)

/-- What the callers do to start a transaction: `xy_transaction_new`, `LWM2M_LIST_ADD` and `xy_transaction_send`,
where the message may fail to be serialised. -/
def start (now mID peerH : ℕ) (token : Option (List UInt8)) (responseTimeout : ℕ) (serialized : Bool) (c : Context) :
    Context :=
  let t : Transaction :=
    { handle := c.next, mID := mID, peerH := peerH, token := token, ackReceived := false, retransTime := 0,
      retransCounter := 0, responseTimeout := responseTimeout }
  if serialized then
    xyTransactionSend now t { c with transactionList := lwm2mListAdd t c.transactionList, next := c.next + 1 }
  else { c with transactionList := lwm2mListRemove mID (lwm2mListAdd t c.transactionList) }

inductive Action where
  | start (now mID peerH : ℕ) (token : Option (List UInt8)) (responseTimeout : ℕ) (serialized : Bool)
  | step (now : ℕ)
  | response (now : ℕ) (message : Received)

def act : Action → Context → Option Context
  | .start now mID peerH token responseTimeout serialized, c =>
    some (start now mID peerH token responseTimeout serialized c)
  | .step now, c => some (xyTransactionStep now c)
  | .response now message, c => some (xyTransactionHandleResponse now message c)

def initialContext : Context :=
  { transactionList := [], log := [], next := 0 }

/-! ### The list -/

section
variable {l : List Transaction} {t u : Transaction}

def Sorted (l : List Transaction) : Prop :=
  l.Pairwise fun t u => t.mID < u.mID

theorem mem_addBehind : u ∈ addBehind t l ↔ u = t ∨ u ∈ l := by
  induction l with
  | nil => simp [addBehind]
  | cons v vs ih =>
    rw [addBehind]
    split
    · rw [List.mem_cons, ih, List.mem_cons, or_left_comm]
    · rw [List.mem_cons]

theorem mem_add : u ∈ lwm2mListAdd t l ↔ u = t ∨ u ∈ l := by
  cases l with
  | nil => simp [lwm2mListAdd]
  | cons v vs =>
    rw [lwm2mListAdd]
    split
    · rw [List.mem_cons]
    · rw [List.mem_cons, mem_addBehind, List.mem_cons, or_left_comm]

theorem Sorted.addBehind (h : Sorted l) (hfresh : ∀ u ∈ l, u.mID ≠ t.mID) :
    Sorted (CoapTransaction.addBehind t l) := by
  induction l with
  | nil => exact List.pairwise_singleton _ _
  | cons v vs ih =>
    obtain ⟨hv, hvs⟩ := List.pairwise_cons.mp h
    have hne := hfresh v List.mem_cons_self
    rw [CoapTransaction.addBehind]
    split
    next hlt =>
      refine List.pairwise_cons.mpr ⟨fun u hu => ?_, ih hvs fun u hu => hfresh u (List.mem_cons_of_mem v hu)⟩
      rcases mem_addBehind.mp hu with rfl | hu
      · exact hlt
      · exact hv u hu
    next hge =>
      refine List.pairwise_cons.mpr ⟨fun u hu => ?_, h⟩
      rcases List.mem_cons.mp hu with rfl | hu
      · omega
      · have hlt := hv u hu
        omega

theorem Sorted.add (h : Sorted l) (hfresh : ∀ u ∈ l, u.mID ≠ t.mID) : Sorted (lwm2mListAdd t l) := by
  cases l with
  | nil => exact List.pairwise_singleton _ _
  | cons v vs =>
    obtain ⟨hv, hvs⟩ := List.pairwise_cons.mp h
    have hne := hfresh v List.mem_cons_self
    rw [lwm2mListAdd]
    split
    next hlt =>
      refine List.pairwise_cons.mpr ⟨fun u hu => ?_, h⟩
      rcases List.mem_cons.mp hu with rfl | hu
      · exact hlt
      · exact Nat.lt_trans hlt (hv u hu)
    next hge =>
      refine List.pairwise_cons.mpr ⟨fun u hu => ?_, Sorted.addBehind hvs fun u hu => hfresh u (List.mem_cons_of_mem v hu)⟩
      rcases mem_addBehind.mp hu with rfl | hu
      · omega
      · exact hv u hu

theorem removeBehind_sublist (id : ℕ) (l : List Transaction) : (removeBehind id l).Sublist l := by
  induction l with
  | nil => exact .slnil
  | cons v vs ih =>
    rw [removeBehind]
    split
    · exact ih.cons_cons v
    · split
      · exact List.sublist_cons_self v vs
      · exact List.Sublist.refl _

theorem remove_sublist (id : ℕ) (l : List Transaction) : (lwm2mListRemove id l).Sublist l := by
  cases l with
  | nil => exact .slnil
  | cons v vs =>
    rw [lwm2mListRemove]
    split
    · exact List.sublist_cons_self v vs
    · exact (removeBehind_sublist id vs).cons_cons v

theorem Sorted.mem_removeBehind (h : Sorted l) (id : ℕ) : u ∈ removeBehind id l ↔ u ∈ l ∧ u.mID ≠ id := by
  induction l with
  | nil => simp [removeBehind]
  | cons v vs ih =>
    obtain ⟨hv, hvs⟩ := List.pairwise_cons.mp h
    rw [removeBehind, List.mem_cons]
    split
    next hlt =>
      rw [List.mem_cons, ih hvs, or_and_right]
      refine or_congr_left ⟨fun heq => ⟨heq, ?_⟩, And.left⟩
      exact heq ▸ Nat.ne_of_lt hlt
    next hge =>
      have hbehind : ∀ u ∈ vs, u.mID ≠ id := fun u hu hid => hge (hid ▸ hv u hu)
      split
      next heq =>
        refine ⟨fun hu => ⟨Or.inr hu, hbehind u hu⟩, ?_⟩
        rintro ⟨rfl | hu, hne⟩
        · exact absurd heq hne
        · exact hu
      next hne =>
        rw [List.mem_cons]
        refine ⟨fun hu => ⟨hu, ?_⟩, And.left⟩
        rcases hu with rfl | hu
        · exact hne
        · exact hbehind u hu

/-- In a sorted list the removal takes away what has the id. -/
theorem Sorted.mem_remove (h : Sorted l) (id : ℕ) : u ∈ lwm2mListRemove id l ↔ u ∈ l ∧ u.mID ≠ id := by
  cases l with
  | nil => simp [lwm2mListRemove]
  | cons v vs =>
    obtain ⟨hv, hvs⟩ := List.pairwise_cons.mp h
    rw [lwm2mListRemove, List.mem_cons]
    split
    next heq =>
      refine ⟨fun hu => ⟨Or.inr hu, fun hid => ?_⟩, ?_⟩
      · exact Nat.ne_of_lt (hv u hu) (heq.trans hid.symm)
      · rintro ⟨rfl | hu, hne⟩
        · exact absurd heq hne
        · exact hu
    next hne =>
      rw [List.mem_cons, Sorted.mem_removeBehind hvs, or_and_right]
      refine or_congr_left ⟨fun heq => ⟨heq, ?_⟩, And.left⟩
      exact heq ▸ hne

theorem Sorted.mem_add_remove (h : Sorted l) {id : ℕ} (hid : t.mID = id) (hfresh : ∀ u ∈ l, u.mID ≠ id) :
    u ∈ lwm2mListRemove id (lwm2mListAdd t l) ↔ u ∈ l := by
  subst hid
  rw [(h.add hfresh).mem_remove, mem_add]
  constructor
  · rintro ⟨rfl | hu, hne⟩
    · exact absurd rfl hne
    · exact hu
  · exact fun hu => ⟨Or.inr hu, hfresh u hu⟩

theorem Sorted.eq_of_mID (h : Sorted l) (ht : t ∈ l) (hu : u ∈ l) (heq : u.mID = t.mID) : u = t := by
  induction l with
  | nil => exact absurd ht List.not_mem_nil
  | cons v vs ih =>
    obtain ⟨hv, hvs⟩ := List.pairwise_cons.mp h
    rw [List.mem_cons] at ht hu
    rcases ht with rfl | ht <;> rcases hu with rfl | hu
    · rfl
    · exact absurd heq (Nat.ne_of_gt (hv u hu))
    · exact absurd heq (Nat.ne_of_lt (hv t ht))
    · exact ih hvs ht hu

theorem Sorted.store (h : Sorted l) (ht : ∀ v ∈ l, v.handle = t.handle → v.mID = t.mID) :
    Sorted (CoapTransaction.store t l) := by
  refine List.Pairwise.map _ (fun v w hvw => ?_) (List.Pairwise.and_mem.mp h)
  obtain ⟨hv, hw, hlt⟩ := hvw
  split <;> split
  next hv' hw' => exact absurd hlt (by rw [ht v hv hv', ht w hw hw']; exact Nat.lt_irrefl _)
  next hv' _ => exact ht v hv hv' ▸ hlt
  next _ hw' => exact ht w hw hw' ▸ hlt
  · exact hlt

end

/-! ### What happened to a transaction -/

section
variable {c : Context} {t u : Transaction} {h now : ℕ} {answered : Bool}

def eventsOf (h : ℕ) (log : List Event) : List Event :=
  log.filter fun e => e.handle = h

/-- `n` transmissions and nothing else. -/
def SentOnly (h n : ℕ) (events : List Event) : Prop :=
  ∃ nows : List ℕ, nows.length = n ∧ events = nows.map (Event.sent h)

/-- Transmissions and then the one call of the callback. -/
def Finished (h : ℕ) (events : List Event) : Prop :=
  ∃ (nows : List ℕ) (now : ℕ) (answered : Bool), 1 ≤ nows.length ∧ nows.length ≤ coapMaxRetransmit ∧
    events = nows.map (Event.sent h) ++ [.done h now answered]

theorem SentOnly.snoc {n : ℕ} {events : List Event} (hs : SentOnly h n events) (now : ℕ) :
    SentOnly h (n + 1) (events ++ [.sent h now]) := by
  obtain ⟨nows, hlen, rfl⟩ := hs
  exact ⟨nows ++ [now], by rw [List.length_append, hlen, List.length_singleton], by rw [List.map_append]; rfl⟩

theorem SentOnly.finish {n : ℕ} {events : List Event} (hs : SentOnly h n events) (hn : 1 ≤ n)
    (hle : n ≤ coapMaxRetransmit) (now : ℕ) (answered : Bool) : Finished h (events ++ [.done h now answered]) := by
  obtain ⟨nows, rfl, rfl⟩ := hs
  exact ⟨nows, now, answered, hn, hle, rfl⟩

theorem eventsOf_append (h : ℕ) (xs ys : List Event) :
    eventsOf h (xs ++ ys) = eventsOf h xs ++ eventsOf h ys :=
  List.filter_append xs ys

/-- The transactions of the list are told apart by their message ids and by their handles. What is not in the list
is over, and what is in it was sent once less than its counter says. -/
structure Kept (c : Context) : Prop where
  sorted : Sorted c.transactionList
  handles : ∀ t ∈ c.transactionList, ∀ u ∈ c.transactionList, u.handle = t.handle → u = t
  old : ∀ t ∈ c.transactionList, t.handle < c.next
  counter : ∀ t ∈ c.transactionList, t.retransCounter ≤ coapMaxRetransmit + 1
  live : ∀ t ∈ c.transactionList, SentOnly t.handle (t.retransCounter - 1) (eventsOf t.handle c.log)
  ended : ∀ h < c.next, (∀ t ∈ c.transactionList, t.handle ≠ h) → Finished h (eventsOf h c.log)
  future : ∀ h, c.next ≤ h → eventsOf h c.log = []

/-- After `settle` the others are in the list as before, and the transaction itself if it was not finished. -/
theorem Kept.mem_settle (hc : Kept c) (ht : t ∈ c.transactionList) (log : List Event) {result : Option Transaction}
    (hres : ∀ t', result = some t' → t'.handle = t.handle) :
    u ∈ (settle now answered t { c with log := log } result).transactionList ↔
      u ∈ c.transactionList ∧ u.handle ≠ t.handle ∨ result = some u := by
  cases result with
  | none =>
    rw [settle, hc.sorted.mem_remove]
    simp only [reduceCtorEq, or_false]
    refine and_congr_right fun hu => not_congr ⟨fun hid => ?_, fun hh => ?_⟩
    · rw [hc.sorted.eq_of_mID ht hu hid]
    · rw [hc.handles t ht u hu hh]
  | some t' =>
    have hh := hres t' rfl
    simp only [settle, store, List.mem_map, Option.some.injEq]
    constructor
    · rintro ⟨v, hv, rfl⟩
      split
      · exact Or.inr rfl
      next hne => exact Or.inl ⟨hv, hh ▸ hne⟩
    · rintro (⟨hu, hne⟩ | rfl)
      · exact ⟨u, hu, if_neg (hh ▸ hne)⟩
      · exact ⟨t, ht, if_pos hh.symm⟩

theorem eventsOf_append_other {sends : List Event} (hown : ∀ e ∈ sends, e.handle ≠ h) (log : List Event) :
    eventsOf h (log ++ sends) = eventsOf h log := by
  have hnil : eventsOf h sends = [] := List.filter_eq_nil_iff.mpr fun e he => by simpa using hown e he
  rw [eventsOf_append, hnil, List.append_nil]

theorem eventsOf_append_own {sends : List Event} (hown : ∀ e ∈ sends, e.handle = h) (log : List Event) :
    eventsOf h (log ++ sends) = eventsOf h log ++ sends := by
  have hall : eventsOf h sends = sends := List.filter_eq_self.mpr fun e he => by simpa using hown e he
  rw [eventsOf_append, hall]

theorem eventsOf_snoc (h : ℕ) (e : Event) (he : e.handle = h) (log : List Event) :
    eventsOf h (log ++ [e]) = eventsOf h log ++ [e] :=
  eventsOf_append_own (List.forall_mem_singleton.mpr he) log

theorem settle_next (result : Option Transaction) : (settle now answered t c result).next = c.next := by
  cases result <;> rfl

/-- The others' events stay. -/
theorem eventsOf_settle (hne : h ≠ t.handle) (result : Option Transaction) :
    eventsOf h (settle now answered t c result).log = eventsOf h c.log := by
  cases result with
  | none =>
    have hdone : ∀ e ∈ [Event.done t.handle now answered], e.handle ≠ h :=
      List.forall_mem_singleton.mpr hne.symm
    exact eventsOf_append_other hdone c.log
  | some t' => rfl

/-- The transaction has some more transmissions and is settled. -/
theorem Kept.settled (hc : Kept c) (ht : t ∈ c.transactionList) {sends : List Event} {result : Option Transaction}
    (hown : ∀ e ∈ sends, e.handle = t.handle)
    (hsends : SentOnly t.handle (t.retransCounter - 1 + sends.length) (eventsOf t.handle c.log ++ sends))
    (hsome : ∀ t', result = some t' → t'.handle = t.handle ∧ t'.mID = t.mID ∧
      t'.retransCounter ≤ coapMaxRetransmit + 1 ∧ t'.retransCounter - 1 = t.retransCounter - 1 + sends.length)
    (hnone : result = none → 1 ≤ t.retransCounter - 1 + sends.length ∧
      t.retransCounter - 1 + sends.length ≤ coapMaxRetransmit) :
    Kept (settle now answered t { c with log := c.log ++ sends } result) := by
  have hmem : ∀ u, u ∈ (settle now answered t { c with log := c.log ++ sends } result).transactionList ↔
      u ∈ c.transactionList ∧ u.handle ≠ t.handle ∨ result = some u :=
    fun u => hc.mem_settle ht (c.log ++ sends) fun t' h => (hsome t' h).1
  have hother : ∀ h, h ≠ t.handle →
      eventsOf h (settle now answered t { c with log := c.log ++ sends } result).log =
        eventsOf h c.log := by
    intro h hne
    rw [eventsOf_settle hne, eventsOf_append_other fun e he => by rw [hown e he]; exact hne.symm]
  refine ⟨?_, ?_, ?_, ?_, ?_, ?_, ?_⟩
  · cases result with
    | none => exact hc.sorted.sublist (remove_sublist t.mID _)
    | some t' =>
      obtain ⟨hh, hid, -⟩ := hsome t' rfl
      exact hc.sorted.store fun v hv hv' => by rw [hc.handles t ht v hv (hv'.trans hh), hid]
  · intro v hv u hu heq
    rcases (hmem v).mp hv with ⟨hv, hvne⟩ | hv <;> rcases (hmem u).mp hu with ⟨hu, hune⟩ | hu
    · exact hc.handles v hv u hu heq
    · exact absurd ((heq.symm).trans (hsome u hu).1) hvne
    · exact absurd (heq.trans (hsome v hv).1) hune
    · exact Option.some.inj (hu.symm.trans hv)
  · intro v hv
    rw [settle_next]
    rcases (hmem v).mp hv with ⟨hv, -⟩ | hv
    · exact hc.old v hv
    · exact (hsome v hv).1 ▸ hc.old t ht
  · intro v hv
    rcases (hmem v).mp hv with ⟨hv, -⟩ | hv
    · exact hc.counter v hv
    · exact (hsome v hv).2.2.1
  · intro v hv
    rcases (hmem v).mp hv with ⟨hv, hne⟩ | hv
    · rw [hother v.handle hne]
      exact hc.live v hv
    · obtain ⟨hh, -, -, hcount⟩ := hsome v hv
      subst hv
      rw [hh, hcount]
      exact (eventsOf_append_own hown c.log).symm ▸ hsends
  · intro h hlt hnot
    rw [settle_next] at hlt
    by_cases hh : h = t.handle
    · subst hh
      cases result with
      | some t' => exact absurd (hsome t' rfl).1 (hnot t' ((hmem t').mpr (Or.inr rfl)))
      | none =>
        obtain ⟨hone, hmax⟩ := hnone rfl
        change Finished t.handle (eventsOf t.handle (c.log ++ sends ++ [.done t.handle now answered]))
        rw [eventsOf_snoc t.handle (.done t.handle now answered) rfl, eventsOf_append_own hown]
        exact hsends.finish hone hmax now answered
    · rw [hother h hh]
      exact hc.ended h hlt fun u hu hu' => hnot u ((hmem u).mpr (Or.inl ⟨hu, hu' ▸ hh⟩)) hu'
  · intro h hle
    rw [settle_next] at hle
    rw [hother h (Nat.ne_of_gt (Nat.lt_of_lt_of_le (hc.old t ht) hle))]
    exact hc.future h hle

/-! ### Sending -/

def sendsOf (now : ℕ) (t : Transaction) : List Event :=
  if (transactionSend now t).1 then [.sent t.handle now] else []

theorem xyTransactionSend_eq (now : ℕ) (t : Transaction) (c : Context) :
    xyTransactionSend now t c =
      settle now false t { c with log := c.log ++ sendsOf now t } (transactionSend now t).2 := by
  rw [xyTransactionSend, sendsOf]
  split
  next isSent result h =>
    rw [h]
    cases isSent with
    | true => rfl
    | false =>
      dsimp only
      rw [if_neg Bool.false_ne_true, if_neg Bool.false_ne_true, List.append_nil]

theorem sendsOf_handle : ∀ e ∈ sendsOf now t, e.handle = t.handle := by
  rw [sendsOf]
  split
  · exact List.forall_mem_singleton.mpr rfl
  · exact fun e he => absurd he List.not_mem_nil

theorem sendsOf_true {result : Option Transaction} (h : transactionSend now t = (true, result)) :
    sendsOf now t = [.sent t.handle now] := by
  rw [sendsOf, h]
  exact if_pos rfl

theorem sendsOf_false {result : Option Transaction} (h : transactionSend now t = (false, result)) :
    sendsOf now t = [] := by
  rw [sendsOf, h]
  exact if_neg Bool.false_ne_true

theorem transactionSend_acked (hack : t.ackReceived = true) : transactionSend now t = (false, none) :=
  if_pos hack

theorem transactionSend_first (hack : t.ackReceived = false) (hcount : t.retransCounter = 0) (hnow : now ≠ 0) :
    transactionSend now t =
      (true, some { t with retransTime := now + coapResponseTimeout, retransCounter := 2 }) := by
  simp [transactionSend, hack, hcount, hnow, coapMaxRetransmit]

theorem transactionSend_first_zero (hack : t.ackReceived = false) (hcount : t.retransCounter = 0) :
    transactionSend 0 t = (true, none) := by
  simp [transactionSend, hack, hcount]

theorem transactionSend_again (hack : t.ackReceived = false) (hcount : t.retransCounter ≠ 0)
    (hle : t.retransCounter ≤ coapMaxRetransmit) :
    transactionSend now t = (true, some { t with
      retransTime := t.retransTime + coapResponseTimeout * 2 ^ (t.retransCounter - 1)
      retransCounter := t.retransCounter + 1 }) := by
  have hfour : t.retransCounter ≤ 4 := hle
  simp [transactionSend, hack, hcount, hfour, coapMaxRetransmit]

theorem transactionSend_last (hack : t.ackReceived = false) (hlt : coapMaxRetransmit < t.retransCounter) :
    transactionSend now t = (false, none) := by
  have hne : t.retransCounter ≠ 0 := by omega
  simp [transactionSend, hack, hne, Nat.not_le.mpr hlt]

/-- A transaction that waits for its first transmission, or had it. -/
def Startable (t : Transaction) : Prop :=
  2 ≤ t.retransCounter ∨ t.retransCounter = 0 ∧ t.ackReceived = false

theorem two_le_max : 2 ≤ coapMaxRetransmit + 1 := by
  decide

theorem transactionSend_cases (now : ℕ) (hnew : Startable t) :
    (∃ t', transactionSend now t = (true, some t') ∧ t'.handle = t.handle ∧ t'.mID = t.mID ∧
      2 ≤ t'.retransCounter ∧ t'.retransCounter ≤ coapMaxRetransmit + 1 ∧
      t'.retransCounter - 1 = t.retransCounter - 1 + 1) ∨
    (transactionSend now t = (true, none) ∧ t.retransCounter = 0) ∨
    (transactionSend now t = (false, none) ∧ 2 ≤ t.retransCounter) := by
  rcases hnew with htwo | ⟨hzero, hack⟩
  · cases hack : t.ackReceived with
    | true => exact Or.inr (Or.inr ⟨transactionSend_acked hack, htwo⟩)
    | false =>
      by_cases hle : t.retransCounter ≤ coapMaxRetransmit
      · refine Or.inl ⟨_, transactionSend_again hack (by omega) hle, rfl, rfl, ?_, ?_, ?_⟩
        · exact Nat.le_succ_of_le htwo
        · exact Nat.succ_le_succ hle
        · dsimp only
          omega
      · exact Or.inr (Or.inr ⟨transactionSend_last hack (Nat.not_le.mp hle), htwo⟩)
  · by_cases hnow : now = 0
    · subst hnow
      exact Or.inr (Or.inl ⟨transactionSend_first_zero hack hzero, hzero⟩)
    · exact Or.inl ⟨_, transactionSend_first hack hzero hnow, rfl, rfl, Nat.le_refl 2, two_le_max, by simp [hzero]⟩

theorem Kept.send (hc : Kept c) (ht : t ∈ c.transactionList) (hnew : Startable t) :
    Kept (xyTransactionSend now t c) := by
  have hlive := hc.live t ht
  have hmax := hc.counter t ht
  rw [xyTransactionSend_eq]
  rcases transactionSend_cases now hnew with ⟨t', heq, hh, hid, -, hle, hcount⟩ | ⟨heq, hzero⟩ | ⟨heq, htwo⟩
  · rw [sendsOf_true heq, heq]
    refine hc.settled ht (List.forall_mem_singleton.mpr rfl) (hlive.snoc now) ?_ ?_
    · intro u hu
      cases hu
      exact ⟨hh, hid, hle, hcount⟩
    · exact fun h => absurd h (Option.some_ne_none t')
  · rw [sendsOf_true heq, heq]
    refine hc.settled ht (List.forall_mem_singleton.mpr rfl) (hlive.snoc now) ?_ ?_
    · exact fun u h => absurd h.symm (Option.some_ne_none u)
    · rw [hzero]
      exact fun _ => ⟨Nat.le_refl 1, Nat.le_of_lt_succ two_le_max⟩
  · rw [sendsOf_false heq, heq]
    refine hc.settled ht (fun e he => absurd he List.not_mem_nil) ?_ ?_ ?_
    · rw [List.append_nil]
      exact hlive
    · exact fun u h => absurd h.symm (Option.some_ne_none u)
    · exact fun _ => ⟨Nat.le_sub_one_of_lt htwo, Nat.sub_le_of_le_add hmax⟩

theorem transactionSend_some (hnew : Startable t) (h : (transactionSend now t).2 = some u) :
    u.handle = t.handle ∧ 2 ≤ u.retransCounter := by
  rcases transactionSend_cases now hnew with ⟨t', heq, hh, -, htwo, -⟩ | ⟨heq, -⟩ | ⟨heq, -⟩
  · rw [heq] at h
    cases h
    exact ⟨hh, htwo⟩
  · rw [heq] at h
    exact absurd h.symm (Option.some_ne_none u)
  · rw [heq] at h
    exact absurd h.symm (Option.some_ne_none u)

/-- The others keep their places and their events. -/
theorem Kept.mem_send (hc : Kept c) (ht : t ∈ c.transactionList) (hnew : Startable t) :
    u ∈ (xyTransactionSend now t c).transactionList ↔
      u ∈ c.transactionList ∧ u.handle ≠ t.handle ∨ (transactionSend now t).2 = some u := by
  rw [xyTransactionSend_eq]
  exact hc.mem_settle ht _ fun t' h => (transactionSend_some hnew h).1

theorem eventsOf_send (hne : h ≠ t.handle) :
    eventsOf h (xyTransactionSend now t c).log = eventsOf h c.log := by
  rw [xyTransactionSend_eq, eventsOf_settle hne,
    eventsOf_append_other fun e he => by rw [sendsOf_handle e he]; exact hne.symm]

/-! ### The step -/

/-- A round of the loop of `xyTransactionStep`. -/
def stepOne (now : ℕ) (c : Context) (t : Transaction) : Context :=
  if t.retransTime ≤ now then xyTransactionSend now t c else c

/-- What holds between the calls of the functions. -/
structure Idle (c : Context) : Prop extends Kept c where
  sent : ∀ t ∈ c.transactionList, 2 ≤ t.retransCounter

theorem Idle.startable (hc : Idle c) (ht : t ∈ c.transactionList) : Startable t :=
  Or.inl (hc.sent t ht)

theorem Kept.idle_send (hc : Kept c) (ht : t ∈ c.transactionList) (hnew : Startable t)
    (hsent : ∀ u ∈ c.transactionList, u.handle ≠ t.handle → 2 ≤ u.retransCounter) :
    Idle (xyTransactionSend now t c) := by
  refine ⟨hc.send ht hnew, fun u hu => ?_⟩
  rcases (hc.mem_send ht hnew).mp hu with ⟨hu, hne⟩ | hu
  · exact hsent u hu hne
  · exact (transactionSend_some hnew hu).2

theorem Idle.stepOne (hc : Idle c) (ht : t ∈ c.transactionList) : Idle (CoapTransaction.stepOne now c t) := by
  rw [CoapTransaction.stepOne]
  split
  · exact hc.idle_send ht (hc.startable ht) fun u hu _ => hc.sent u hu
  · exact hc

theorem Idle.mem_stepOne (hc : Idle c) (ht : t ∈ c.transactionList) (hne : u.handle ≠ t.handle) :
    u ∈ (CoapTransaction.stepOne now c t).transactionList ↔ u ∈ c.transactionList := by
  rw [CoapTransaction.stepOne]
  split
  · rw [hc.mem_send ht (hc.startable ht)]
    refine ⟨fun h => h.elim And.left fun h => ?_, fun h => Or.inl ⟨h, hne⟩⟩
    exact absurd (transactionSend_some (hc.startable ht) h).1 hne
  · exact Iff.rfl

theorem eventsOf_stepOne (hne : h ≠ t.handle) : eventsOf h (stepOne now c t).log = eventsOf h c.log := by
  rw [stepOne]
  split
  · exact eventsOf_send hne
  · rfl

/-- Nothing happened to the transaction with a handle. -/
def SameAt (h : ℕ) (c c' : Context) : Prop :=
  eventsOf h c'.log = eventsOf h c.log ∧
    ∀ u, u.handle = h → (u ∈ c'.transactionList ↔ u ∈ c.transactionList)

theorem SameAt.trans {c' c'' : Context} (h₁ : SameAt h c c') (h₂ : SameAt h c' c'') : SameAt h c c'' :=
  ⟨h₂.1.trans h₁.1, fun u hu => (h₂.2 u hu).trans (h₁.2 u hu)⟩

theorem Idle.sameAt_stepOne (hc : Idle c) (ht : t ∈ c.transactionList) (hne : t.handle ≠ h) :
    SameAt h c (CoapTransaction.stepOne now c t) :=
  ⟨eventsOf_stepOne hne.symm, fun _ hu => hc.mem_stepOne ht (hu ▸ hne.symm)⟩

/-- The rounds of a list of transactions whose handles are distinct. The others are left alone. -/
theorem Idle.foldl_stepOne (hc : Idle c) (now : ℕ) {ts : List Transaction} (hts : ∀ t ∈ ts, t ∈ c.transactionList)
    (hd : ts.Pairwise fun t u => t.handle ≠ u.handle) :
    Idle (ts.foldl (CoapTransaction.stepOne now) c) ∧
      ∀ h, (∀ t ∈ ts, t.handle ≠ h) → SameAt h c (ts.foldl (CoapTransaction.stepOne now) c) := by
  induction ts generalizing c with
  | nil => exact ⟨hc, fun h _ => ⟨rfl, fun u _ => Iff.rfl⟩⟩
  | cons t ts ih =>
    obtain ⟨hne, hd⟩ := List.pairwise_cons.mp hd
    have ht := hts t List.mem_cons_self
    have hrest : ∀ u ∈ ts, u ∈ (CoapTransaction.stepOne now c t).transactionList := fun u hu =>
      (hc.mem_stepOne ht (hne u hu).symm).mpr (hts u (List.mem_cons_of_mem t hu))
    obtain ⟨hidle, hother⟩ := ih (hc.stepOne ht) hrest hd
    refine ⟨hidle, fun h hh => ?_⟩
    exact (hc.sameAt_stepOne ht (hh t List.mem_cons_self)).trans
      (hother h fun u hu => hh u (List.mem_cons_of_mem t hu))

theorem Kept.pairwise_handle (hc : Kept c) : c.transactionList.Pairwise fun t u => t.handle ≠ u.handle := by
  refine List.Pairwise.imp ?_ (List.Pairwise.and_mem.mp hc.sorted)
  rintro t u ⟨ht, hu, hlt⟩ heq
  rw [hc.handles t ht u hu heq.symm] at hlt
  exact Nat.lt_irrefl _ hlt

theorem Idle.xyTransactionStep (hc : Idle c) (now : ℕ) : Idle (CoapTransaction.xyTransactionStep now c) :=
  (hc.foldl_stepOne now (fun _ ht => ht) hc.pairwise_handle).1

/-! ### The other functions -/

theorem acknowledged_same (message : Received) (t : Transaction) :
    (acknowledged message t).handle = t.handle ∧ (acknowledged message t).mID = t.mID ∧
      (acknowledged message t).retransCounter = t.retransCounter := by
  rw [acknowledged]
  split <;> exact ⟨rfl, rfl, rfl⟩

theorem handleOne_some {message : Received} {result : Option Transaction}
    (hone : handleOne now message t = some result) (hres : result = some u) :
    u.handle = t.handle ∧ u.mID = t.mID ∧ u.retransCounter = t.retransCounter := by
  subst hres
  rw [handleOne] at hone
  split at hone
  · dsimp only at hone
    split at hone
    · split at hone
      · obtain rfl := Option.some.inj (Option.some.inj hone)
        exact acknowledged_same message t
      · exact absurd (Option.some.inj hone).symm (Option.some_ne_none u)
    · split at hone
      · obtain rfl := Option.some.inj (Option.some.inj hone)
        exact acknowledged_same message t
      · exact absurd hone.symm (Option.some_ne_none _)
  · exact absurd hone.symm (Option.some_ne_none _)

theorem Idle.answer (hc : Idle c) (ht : t ∈ c.transactionList) {result : Option Transaction}
    (hres : ∀ u, result = some u → u.handle = t.handle ∧ u.mID = t.mID ∧ u.retransCounter = t.retransCounter) :
    Idle (settle now answered t c result) := by
  have htwo := hc.sent t ht
  have hmax := hc.counter t ht
  refine ⟨?_, fun u hu => ?_⟩
  · have hkept := @Kept.settled c t now answered hc.toKept ht [] result fun e he => absurd he List.not_mem_nil
    rw [List.append_nil, List.append_nil] at hkept
    refine hkept (hc.live t ht) (fun u hu => ?_) fun _ => ?_
    · obtain ⟨hh, hid, hcount⟩ := hres u hu
      exact ⟨hh, hid, hcount ▸ hmax, congrArg Nat.pred hcount⟩
    · exact ⟨Nat.le_sub_one_of_lt htwo, Nat.sub_le_of_le_add hmax⟩
  · rcases (hc.mem_settle ht c.log fun u hu => (hres u hu).1).mp hu with ⟨hu, -⟩ | hu
    · exact hc.sent u hu
    · exact (hres u hu).2.2 ▸ htwo

theorem Idle.xyTransactionHandleResponse (hc : Idle c) (now : ℕ) (message : Received) :
    Idle (CoapTransaction.xyTransactionHandleResponse now message c) := by
  rw [CoapTransaction.xyTransactionHandleResponse]
  split
  · exact hc
  next t hfind =>
    obtain ⟨hsome, -⟩ := List.find?_eq_some_iff_append.mp hfind
    obtain ⟨result, hone⟩ := Option.isSome_iff_exists.mp hsome
    rw [hone, Option.getD_some]
    exact hc.answer (List.mem_of_find?_eq_some hfind) fun u hu => handleOne_some hone hu

/-- A new transaction has a message id that no other one has. -/
def Fresh (a : Action) (c : Context) : Prop :=
  match a with
  | .start _ mID _ _ _ _ => ∀ t ∈ c.transactionList, t.mID ≠ mID
  | _ => True

theorem Kept.add (hc : Kept c) (hnew : t.handle = c.next) (hcount : t.retransCounter = 0)
    (hfresh : ∀ u ∈ c.transactionList, u.mID ≠ t.mID) :
    Kept { c with transactionList := lwm2mListAdd t c.transactionList, next := c.next + 1 } := by
  have hlt : ∀ u ∈ c.transactionList, u.handle ≠ t.handle := fun u hu =>
    hnew ▸ Nat.ne_of_lt (hc.old u hu)
  refine ⟨hc.sorted.add hfresh, ?_, ?_, ?_, ?_, ?_, ?_⟩
  · intro v hv u hu heq
    replace hv := mem_add.mp hv
    replace hu := mem_add.mp hu
    rcases hv with rfl | hv <;> rcases hu with rfl | hu
    · rfl
    · exact absurd heq (hlt u hu)
    · exact absurd heq.symm (hlt v hv)
    · exact hc.handles v hv u hu heq
  · intro u hu
    rcases mem_add.mp hu with rfl | hu
    · exact hnew ▸ Nat.lt_succ_self _
    · exact Nat.lt_succ_of_lt (hc.old u hu)
  · intro u hu
    rcases mem_add.mp hu with rfl | hu
    · exact hcount ▸ Nat.zero_le _
    · exact hc.counter u hu
  · intro u hu
    rcases mem_add.mp hu with rfl | hu
    · rw [hcount, hnew]
      exact ⟨[], rfl, hc.future c.next (Nat.le_refl _)⟩
    · exact hc.live u hu
  · intro h hlt' hnot
    have hne : h ≠ c.next := fun hh => hnot t (mem_add.mpr (Or.inl rfl)) (hnew.trans hh.symm)
    exact hc.ended h (Nat.lt_of_le_of_ne (Nat.le_of_lt_succ hlt') hne) fun u hu =>
      hnot u (mem_add.mpr (Or.inr hu))
  · exact fun h hle => hc.future h (Nat.le_of_succ_le hle)

/-- A message that cannot be serialised leaves no trace in the list. -/
theorem Idle.add_remove (hc : Idle c) {mID : ℕ} (hid : t.mID = mID) (hfresh : ∀ u ∈ c.transactionList, u.mID ≠ mID) :
    Idle { c with transactionList := lwm2mListRemove mID (lwm2mListAdd t c.transactionList) } := by
  subst hid
  have hmem := fun u => @Sorted.mem_add_remove c.transactionList t u hc.sorted t.mID rfl hfresh
  refine ⟨⟨(hc.sorted.add hfresh).sublist (remove_sublist t.mID _), ?_, ?_, ?_, ?_, ?_, hc.future⟩, ?_⟩
  · exact fun v hv u hu => hc.handles v ((hmem v).mp hv) u ((hmem u).mp hu)
  · exact fun u hu => hc.old u ((hmem u).mp hu)
  · exact fun u hu => hc.counter u ((hmem u).mp hu)
  · exact fun u hu => hc.live u ((hmem u).mp hu)
  · exact fun h hlt hnot => hc.ended h hlt fun u hu => hnot u ((hmem u).mpr hu)
  · exact fun u hu => hc.sent u ((hmem u).mp hu)

theorem Idle.start (hc : Idle c) (now mID peerH : ℕ) (token : Option (List UInt8)) (responseTimeout : ℕ)
    (serialized : Bool) (hfresh : ∀ u ∈ c.transactionList, u.mID ≠ mID) :
    Idle (CoapTransaction.start now mID peerH token responseTimeout serialized c) := by
  rw [CoapTransaction.start]
  split
  · refine (hc.toKept.add rfl rfl hfresh).idle_send (mem_add.mpr (Or.inl rfl)) (Or.inr ⟨rfl, rfl⟩) ?_
    intro u hu hne
    rcases mem_add.mp hu with rfl | hu
    · exact absurd rfl hne
    · exact hc.sent u hu
  · exact hc.add_remove rfl hfresh

theorem Idle.act {a : Action} {c' : Context} (hc : Idle c) (hfresh : Fresh a c) (h : CoapTransaction.act a c = some c') :
    Idle c' := by
  cases a <;> cases h
  case start => exact hc.start _ _ _ _ _ _ hfresh
  case step now => exact hc.xyTransactionStep now
  case response now message => exact hc.xyTransactionHandleResponse now message

theorem idle_initialContext : Idle initialContext :=
  ⟨⟨List.Pairwise.nil, List.forall_mem_nil _, List.forall_mem_nil _, List.forall_mem_nil _, List.forall_mem_nil _,
    fun h hlt => absurd hlt (Nat.not_lt_zero h), fun _ _ => rfl⟩, List.forall_mem_nil _⟩

end

/-- In a run that gives every new transaction a message id that no waiting one has, a transaction whose message was
serialised is transmitted at least once and at most four times and its callback is called exactly once, after the last
transmission and when the transaction leaves the list. -/
theorem callback_once {as : List Action} {c : Context} (hfresh : Along act Fresh as initialContext)
    (hrun : run act as initialContext = some c) :
    ∀ h < c.next,
      (∃ t ∈ c.transactionList, t.handle = h ∧ ∃ nows : List ℕ, 1 ≤ nows.length ∧ nows.length ≤ coapMaxRetransmit ∧
        nows.length + 1 = t.retransCounter ∧ eventsOf h c.log = nows.map (Event.sent h)) ∨
      (∀ t ∈ c.transactionList, t.handle ≠ h) ∧ Finished h (eventsOf h c.log) := by
  have hc : Idle c := run_invariant (fun _ _ _ hc hfresh h => hc.act hfresh h) idle_initialContext hfresh hrun
  intro h hlt
  by_cases hlive : ∃ t ∈ c.transactionList, t.handle = h
  · obtain ⟨t, ht, rfl⟩ := hlive
    obtain ⟨nows, hlen, hevents⟩ := hc.live t ht
    have htwo := hc.sent t ht
    have hmax := hc.counter t ht
    exact Or.inl ⟨t, ht, rfl, nows, by omega, by omega, by omega, hevents⟩
  · have hnot : ∀ t ∈ c.transactionList, t.handle ≠ h := fun t ht hh => hlive ⟨t, ht, hh⟩
    exact Or.inr ⟨hnot, hc.ended h hlt hnot⟩

theorem callback_once_acked : Finished 0 [.sent 0 1, .sent 0 5, .done 0 6 true] := by
  have h := @callback_once
    [.start 1 7 0 none 0 true, .step 2, .step 5, .response 6 ⟨0, .ack, 7, false, []⟩]
    ⟨[], [.sent 0 1, .sent 0 5, .done 0 6 true], 1⟩
    ⟨List.forall_mem_nil _, fun _ _ => ⟨trivial, fun _ _ => ⟨trivial, fun _ _ => ⟨trivial, fun _ _ => trivial⟩⟩⟩⟩
    rfl 0 Nat.zero_lt_one
  rcases h with ⟨t, ht, -⟩ | ⟨-, hdone⟩
  · exact absurd ht List.not_mem_nil
  · exact hdone

end NbiotXY1100.CoapTransaction
