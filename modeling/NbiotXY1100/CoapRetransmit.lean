import NbiotXY1100.CoapTransaction
import Mathlib.Algebra.GroupWithZero.Nat
import Mathlib.Tactic.Ring

/-! # The retransmissions of an unanswered CoAP transaction

Nobody answers a transaction. Its retransmissions and its end then depend on the instants of the steps alone: a step
serves the next deadline once that is over. -/
namespace NbiotXY1100.CoapRetransmit
open StepRuns CoapTransaction

/-- The deadlines, the first of which is followed by a gap, and every gap twice as long as the one before it. -/
def backoff : ℕ → ℕ → ℕ → List ℕ
  | 0, _, _ => []
  | n + 1, time, gap => time :: backoff n (time + gap) (2 * gap)

/-- The instants serve the deadlines one by one. At the last one the transaction is given up. -/
def served (h : ℕ) : List ℕ → List ℕ → List Event
  | [], _ => []
  | _, [] => []
  | deadline :: deadlines, now :: nows =>
    if deadline ≤ now then
      (if deadlines = [] then .done h now false else .sent h now) :: served h deadlines nows
    else served h (deadline :: deadlines) nows

def stepTime : Action → Option ℕ
  | .step now => some now
  | _ => none

def stepTimes (as : List Action) : List ℕ :=
  as.filterMap stepTime

/-- New message ids are fresh, and a response is for a transaction with another handle. -/
def Unanswered (h : ℕ) (a : Action) (c : Context) : Prop :=
  Fresh a c ∧
    match a with
    | .response now message =>
      ∀ t, c.transactionList.find? (fun t => (handleOne now message t).isSome) = some t → t.handle ≠ h
    | _ => True

section
variable {c c' : Context} {t u : Transaction} {h now : ℕ}

/-! ### One action -/

theorem sameAt_step (hc : Idle c) (hnot : ∀ t ∈ c.transactionList, t.handle ≠ h) :
    SameAt h c (xyTransactionStep now c) :=
  (hc.foldl_stepOne now (fun _ ht => ht) hc.pairwise_handle).2 h hnot

/-- What the round of the transaction itself leaves of it is what the step leaves. -/
theorem step_own (hc : Idle c) (now : ℕ) (ht : t ∈ c.transactionList) :
    ∃ c₁, Idle c₁ ∧ t ∈ c₁.transactionList ∧ eventsOf t.handle c₁.log = eventsOf t.handle c.log ∧
      SameAt t.handle (stepOne now c₁ t) (xyTransactionStep now c) := by
  have hd := hc.pairwise_handle
  obtain ⟨before, after, hsplit⟩ := List.append_of_mem ht
  rw [hsplit] at hd
  obtain ⟨hbefore, hrest, hcross⟩ := List.pairwise_append.mp hd
  obtain ⟨hne, hafter⟩ := List.pairwise_cons.mp hrest
  have hin : ∀ u, u ∈ c.transactionList ↔ u ∈ before ∨ u = t ∨ u ∈ after := by
    intro u
    rw [hsplit, List.mem_append, List.mem_cons]
  obtain ⟨hidle, hother⟩ :=
    hc.foldl_stepOne now (fun u hu => (hin u).mpr (Or.inl hu)) hbefore
  obtain ⟨hevents, hsame⟩ := hother t.handle fun u hu => hcross u hu t List.mem_cons_self
  have ht₁ := (hsame t rfl).mpr ht
  refine ⟨before.foldl (stepOne now) c, hidle, ht₁, hevents, ?_⟩
  have hrest : ∀ u ∈ after, u ∈ (stepOne now (before.foldl (stepOne now) c) t).transactionList := by
    intro u hu
    rw [hidle.mem_stepOne ht₁ (hne u hu).symm]
    have hkept := hother u.handle fun v hv => hcross v hv u (List.mem_cons_of_mem t hu)
    exact (hkept.2 u rfl).mpr ((hin u).mpr (Or.inr (Or.inr hu)))
  have hlast := ((hidle.stepOne ht₁).foldl_stepOne now hrest hafter).2 t.handle fun u hu => (hne u hu).symm
  have hstep : xyTransactionStep now c =
      after.foldl (stepOne now) (stepOne now (before.foldl (stepOne now) c) t) := by
    change c.transactionList.foldl (stepOne now) c = _
    rw [hsplit, List.foldl_append, List.foldl_cons]
  rw [hstep]
  exact hlast

theorem step_early (hc : Idle c) (ht : t ∈ c.transactionList) (hnow : now < t.retransTime) :
    t ∈ (xyTransactionStep now c).transactionList ∧
      eventsOf t.handle (xyTransactionStep now c).log = eventsOf t.handle c.log := by
  obtain ⟨c₁, hc₁, ht₁, hevents, hsame⟩ := step_own hc now ht
  rw [stepOne, if_neg (Nat.not_le.mpr hnow)] at hsame
  exact ⟨(hsame.2 t rfl).mpr ht₁, hsame.1.trans hevents⟩

theorem step_again (hc : Idle c) (ht : t ∈ c.transactionList) (hack : t.ackReceived = false)
    (hnow : t.retransTime ≤ now) (hle : t.retransCounter ≤ coapMaxRetransmit) :
    { t with
      retransTime := t.retransTime + coapResponseTimeout * 2 ^ (t.retransCounter - 1)
      retransCounter := t.retransCounter + 1 } ∈ (xyTransactionStep now c).transactionList ∧
      eventsOf t.handle (xyTransactionStep now c).log = eventsOf t.handle c.log ++ [.sent t.handle now] := by
  obtain ⟨c₁, hc₁, ht₁, hevents, hsame⟩ := step_own hc now ht
  have htwo := hc.sent t ht
  have hsend : transactionSend now t = _ := transactionSend_again hack (by omega) hle
  rw [stepOne, if_pos hnow] at hsame
  refine ⟨(hsame.2 _ ?_).mpr ((hc₁.mem_send ht₁ (hc₁.startable ht₁)).mpr (Or.inr ?_)), ?_⟩
  · rfl
  · rw [hsend]
  · rw [hsame.1, xyTransactionSend_eq, sendsOf_true hsend, hsend, settle, eventsOf_snoc t.handle (.sent t.handle now) rfl,
      hevents]

theorem step_last (hc : Idle c) (ht : t ∈ c.transactionList) (hack : t.ackReceived = false)
    (hnow : t.retransTime ≤ now) (hlt : coapMaxRetransmit < t.retransCounter) :
    (∀ u ∈ (xyTransactionStep now c).transactionList, u.handle ≠ t.handle) ∧
      eventsOf t.handle (xyTransactionStep now c).log = eventsOf t.handle c.log ++ [.done t.handle now false] := by
  obtain ⟨c₁, hc₁, ht₁, hevents, hsame⟩ := step_own hc now ht
  have hsend : transactionSend now t = _ := transactionSend_last hack hlt
  rw [stepOne, if_pos hnow] at hsame
  refine ⟨fun u hu hh => ?_, ?_⟩
  · rcases (hc₁.mem_send ht₁ (hc₁.startable ht₁)).mp ((hsame.2 u hh).mp hu) with ⟨-, hne⟩ | hsome
    · exact hne hh
    · rw [hsend] at hsome
      exact absurd hsome.symm (Option.some_ne_none u)
  · rw [hsame.1, xyTransactionSend_eq, sendsOf_false hsend, hsend, settle, List.append_nil,
      eventsOf_snoc t.handle (.done t.handle now false) rfl, hevents]

theorem sameAt_response (hc : Idle c) (message : Received)
    (hother : ∀ t, c.transactionList.find? (fun t => (handleOne now message t).isSome) = some t → t.handle ≠ h) :
    SameAt h c (xyTransactionHandleResponse now message c) := by
  rw [xyTransactionHandleResponse]
  split
  · exact ⟨rfl, fun u _ => Iff.rfl⟩
  next t hfind =>
    obtain ⟨hsome, -⟩ := List.find?_eq_some_iff_append.mp hfind
    obtain ⟨result, hone⟩ := Option.isSome_iff_exists.mp hsome
    have hne := hother t hfind
    rw [hone, Option.getD_some]
    refine ⟨eventsOf_settle hne.symm result, fun u hu => ?_⟩
    have hres : ∀ v, result = some v → v.handle = t.handle := fun v hv => (handleOne_some hone hv).1
    refine (hc.mem_settle (List.mem_of_find?_eq_some hfind) c.log hres).trans ⟨fun hmem => ?_, fun hmem => ?_⟩
    · exact hmem.elim And.left fun hv => absurd ((hres u hv).symm.trans hu) hne
    · exact Or.inl ⟨hmem, hu ▸ hne.symm⟩

theorem sameAt_start (hc : Idle c) (now mID peerH : ℕ) (token : Option (List UInt8)) (responseTimeout : ℕ)
    (serialized : Bool) (hfresh : ∀ u ∈ c.transactionList, u.mID ≠ mID) (hlt : h < c.next) :
    SameAt h c (start now mID peerH token responseTimeout serialized c) := by
  have hne : h ≠ c.next := Nat.ne_of_lt hlt
  rw [start]
  split
  · refine ⟨eventsOf_send hne, fun u hu => ?_⟩
    have hnew : Startable ⟨c.next, mID, peerH, token, false, 0, 0, responseTimeout⟩ := Or.inr ⟨rfl, rfl⟩
    refine ((hc.toKept.add rfl rfl hfresh).mem_send (mem_add.mpr (Or.inl rfl)) hnew).trans ⟨?_, fun hmem => ?_⟩
    · rintro (⟨hmem, hune⟩ | hsome)
      · exact (mem_add.mp hmem).resolve_left fun heq => hune (congrArg Transaction.handle heq)
      · exact absurd (hu.symm.trans (transactionSend_some hnew hsome).1) hne
    · exact Or.inl ⟨mem_add.mpr (Or.inr hmem), fun heq => hne (hu.symm.trans heq)⟩
  · exact ⟨rfl, fun u _ => hc.sorted.mem_add_remove rfl hfresh⟩

theorem send_next (now : ℕ) (t : Transaction) (c : Context) : (xyTransactionSend now t c).next = c.next := by
  rw [xyTransactionSend_eq, settle_next]

theorem foldl_stepOne_next (now : ℕ) (ts : List Transaction) (c : Context) :
    (ts.foldl (stepOne now) c).next = c.next := by
  induction ts generalizing c with
  | nil => rfl
  | cons t ts ih =>
    rw [List.foldl_cons, ih, stepOne]
    split
    · exact send_next now t c
    · rfl

theorem next_le_act {a : Action} (ha : act a c = some c') : c.next ≤ c'.next := by
  cases a <;> cases ha
  case start now mID peerH token responseTimeout serialized =>
    rw [start]
    split
    · rw [send_next]
      exact Nat.le_succ c.next
    · exact Nat.le_refl c.next
  case step now => exact Nat.le_of_eq (foldl_stepOne_next now c.transactionList c).symm
  case response now message =>
    rw [xyTransactionHandleResponse]
    split
    · exact Nat.le_refl c.next
    · exact Nat.le_of_eq (settle_next _).symm

/-- Only a step changes an unanswered transaction. -/
theorem sameAt_act {a : Action} (hc : Idle c) (hun : Unanswered h a c) (hlt : h < c.next) (ha : act a c = some c')
    (hstep : stepTime a = none) : SameAt h c c' := by
  cases a <;> cases ha
  case start => exact sameAt_start hc _ _ _ _ _ _ hun.1 hlt
  case step now => exact absurd hstep (Option.some_ne_none now)
  case response now message => exact sameAt_response hc message hun.2

theorem act_step {a : Action} (hstep : stepTime a = some now) (ha : act a c = some c') :
    xyTransactionStep now c = c' := by
  cases a <;> cases hstep
  exact Option.some.inj ha

/-! ### Runs -/

theorem stepTimes_cons {a : Action} (as : List Action) (ha : stepTime a = none) :
    stepTimes (a :: as) = stepTimes as :=
  List.filterMap_cons_none ha

/-- Nothing happens to a transaction that is over. -/
theorem eventsOf_gone {as : List Action} (hc : Idle c) (hlt : h < c.next)
    (hnot : ∀ t ∈ c.transactionList, t.handle ≠ h) (hun : Along act (Unanswered h) as c)
    (hrun : run act as c = some c') : eventsOf h c'.log = eventsOf h c.log := by
  induction as generalizing c with
  | nil =>
    cases hrun
    rfl
  | cons a as ih =>
    obtain ⟨c₁, ha, has⟩ := (run_cons_some act).mp hrun
    have hsame : SameAt h c c₁ := by
      cases hstep : stepTime a with
      | none => exact sameAt_act hc hun.1 hlt ha hstep
      | some now => exact act_step hstep ha ▸ sameAt_step hc hnot
    have hnot₁ : ∀ t ∈ c₁.transactionList, t.handle ≠ h := fun t ht hh => hnot t ((hsame.2 t hh).mp ht) hh
    exact (ih (hc.act hun.1.1 ha) (Nat.lt_of_lt_of_le hlt (next_le_act ha)) hnot₁ (hun.2 c₁ ha) has).trans hsame.1

/-- The transaction has `n` deadlines left, and the gaps double. -/
theorem eventsOf_waiting {as : List Action} {n : ℕ} (hc : Idle c) (ht : t ∈ c.transactionList)
    (hack : t.ackReceived = false) (hn : t.retransCounter + n = coapMaxRetransmit + 2)
    (hun : Along act (Unanswered t.handle) as c) (hrun : run act as c = some c') :
    eventsOf t.handle c'.log = eventsOf t.handle c.log ++
      served t.handle (backoff n t.retransTime (coapResponseTimeout * 2 ^ (t.retransCounter - 1))) (stepTimes as) := by
  induction as generalizing c t n with
  | nil =>
    cases hrun
    cases hb : backoff n t.retransTime (coapResponseTimeout * 2 ^ (t.retransCounter - 1)) with
    | nil => exact (List.append_nil _).symm
    | cons d ds => exact (List.append_nil _).symm
  | cons a as ih =>
    obtain ⟨c₁, ha, has⟩ := (run_cons_some act).mp hrun
    have hc₁ := hc.act hun.1.1 ha
    have hun₁ := hun.2 c₁ ha
    have hlt := hc.old t ht
    have hmax := hc.counter t ht
    have htwo := hc.sent t ht
    cases hstep : stepTime a with
    | none =>
      have hsame := sameAt_act hc hun.1 hlt ha hstep
      rw [stepTimes_cons as hstep, ← hsame.1]
      exact ih hc₁ ((hsame.2 t rfl).mpr ht) hack hn hun₁ has
    | some now =>
      obtain ⟨m, rfl⟩ : ∃ m, n = m + 1 := ⟨n - 1, by omega⟩
      have hrest : stepTimes (a :: as) = now :: stepTimes as := List.filterMap_cons_some hstep
      obtain rfl := act_step hstep ha
      rw [hrest, backoff, served]
      split
      next hle =>
        by_cases hlast : t.retransCounter ≤ coapMaxRetransmit
        · obtain ⟨hmem, hevents⟩ := step_again hc ht hack hle hlast
          obtain ⟨k, rfl⟩ : ∃ k, m = k + 1 := ⟨m - 1, by omega⟩
          have hgap : coapResponseTimeout * 2 ^ (t.retransCounter + 1 - 1) =
              2 * (coapResponseTimeout * 2 ^ (t.retransCounter - 1)) := by
            rw [show t.retransCounter + 1 - 1 = t.retransCounter - 1 + 1 by omega, Nat.pow_succ]
            ring
          have hcount : t.retransCounter + 1 + (k + 1) = coapMaxRetransmit + 2 := by omega
          have hnext := ih hc₁ hmem hack hcount hun₁ has
          dsimp only at hnext
          rw [hgap, hevents, List.append_assoc] at hnext
          rw [backoff, if_neg (List.cons_ne_nil _ _)]
          exact hnext
        · obtain ⟨hnot, hevents⟩ := step_last hc ht hack hle (Nat.not_le.mp hlast)
          obtain rfl : m = 0 := by omega
          rw [eventsOf_gone hc₁ (Nat.lt_of_lt_of_le hlt (next_le_act ha)) hnot hun₁ has, hevents,
            backoff, if_pos rfl, served]
      next hgt =>
        obtain ⟨hmem, hevents⟩ := step_early hc ht (Nat.not_le.mp hgt)
        rw [← hevents]
        exact ih hc₁ hmem hack hn hun₁ has

theorem along_steps (nows : List ℕ) (c : Context) : Along act (Unanswered h) (nows.map .step) c := by
  induction nows generalizing c with
  | nil => trivial
  | cons now nows ih => exact ⟨⟨trivial, trivial⟩, fun c' _ => ih c'⟩

end

/-- A transaction that is started at `T` and that nobody answers is transmitted again by the first steps that come
4, 12 and 28 seconds later, one step for each, and given up by the first one after these that comes 60 seconds later. -/
theorem unanswered_schedule {before after : List Action} {c c' : Context} {T mID peerH responseTimeout : ℕ}
    {token : Option (List UInt8)} (hbefore : Along act Fresh before initialContext)
    (hrun : run act before initialContext = some c) (hT : T ≠ 0) (hfresh : ∀ u ∈ c.transactionList, u.mID ≠ mID)
    (hafter : Along act (Unanswered c.next) after (start T mID peerH token responseTimeout true c))
    (hrun' : run act after (start T mID peerH token responseTimeout true c) = some c') :
    eventsOf c.next c'.log =
      .sent c.next T :: served c.next [T + 4, T + 12, T + 28, T + 60] (stepTimes after) := by
  have hc : Idle c := run_invariant (fun _ _ _ hc hfresh h => hc.act hfresh h) idle_initialContext hbefore hrun
  let t : Transaction := ⟨c.next, mID, peerH, token, false, 0, 0, responseTimeout⟩
  let added : Context := { c with transactionList := lwm2mListAdd t c.transactionList, next := c.next + 1 }
  have hnew : Startable t := Or.inr ⟨rfl, rfl⟩
  have hadd : Kept added := hc.toKept.add rfl rfl hfresh
  have ht : t ∈ added.transactionList := mem_add.mpr (Or.inl rfl)
  have hsend : transactionSend T t = _ := transactionSend_first rfl rfl hT
  have hmem : { t with retransTime := T + coapResponseTimeout, retransCounter := 2 } ∈
      (xyTransactionSend T t added).transactionList :=
    (hadd.mem_send ht hnew).mpr (Or.inr (congrArg Prod.snd hsend))
  have hevents : eventsOf c.next (xyTransactionSend T t added).log = [.sent c.next T] := by
    rw [xyTransactionSend_eq, sendsOf_true hsend, hsend, settle, eventsOf_snoc c.next (.sent c.next T) rfl]
    exact congrArg (· ++ _) (hc.future c.next (Nat.le_refl _))
  have hidle := hc.start T mID peerH token responseTimeout true hfresh
  have hdeadlines : backoff 4 (T + coapResponseTimeout) (coapResponseTimeout * 2 ^ (2 - 1)) =
      [T + 4, T + 12, T + 28, T + 60] := rfl
  have hcount : 2 + 4 = coapMaxRetransmit + 2 := rfl
  have hall := eventsOf_waiting hidle hmem rfl hcount hafter hrun'
  refine hall.trans ?_
  change eventsOf c.next (xyTransactionSend T t added).log ++ _ = _
  rw [hevents]
  exact congrArg (fun deadlines => .sent c.next T :: served c.next deadlines (stepTimes after)) hdeadlines

/-- Some steps come before the next deadline and serve none, others come late. -/
theorem unanswered_schedule_late :
    eventsOf 0 [.sent 0 100, .sent 0 105, .sent 0 112, .sent 0 131, .done 0 160 false] =
      .sent 0 100 :: served 0 [104, 112, 128, 160] [103, 105, 112, 131, 159, 160, 200] :=
  @unanswered_schedule [] [.step 103, .step 105, .step 112, .step 131, .step 159, .step 160, .step 200] initialContext
    ⟨[], [.sent 0 100, .sent 0 105, .sent 0 112, .sent 0 131, .done 0 160 false], 1⟩ 100 7 0 0 none trivial rfl
    (Nat.succ_ne_zero 99) (List.forall_mem_nil _) (along_steps [103, 105, 112, 131, 159, 160, 200] _) rfl

end NbiotXY1100.CoapRetransmit
