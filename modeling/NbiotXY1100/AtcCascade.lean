import NbiotXY1100.AtcTask
import Mathlib.Data.List.Forall2

/-! # Lines of several commands

A line is cut at its semicolons while it is executed: the first command is sent to the
task's own queue at once, each further one when its predecessor has ended with success.
The number of commands is kept in eight bits, so a line is executed rightly exactly when it
has fewer than 256 commands. -/
namespace NbiotXY1100.AtcCascade
open AtcTask

def quote : UInt8 := 34

/-- The commands of a line behind its first two letters. -/
def joined : List (List UInt8) → List UInt8
  | [] => [cr]
  | [c] => c ++ [cr]
  | c :: c' :: cs => c ++ semicolon :: joined (c' :: cs)

def line (cmds : List (List UInt8)) : List UInt8 := atPrefix ++ joined cmds

/-- What happens to a text, with the result that the stack reports if the text goes there. -/
structure Outcome where
  analysis : Analysis
  rst : CmdRst

def Outcome.isOk (o : Outcome) : Bool :=
  match o.analysis.answer with
  | .result ucResult => ucResult = commandEnd
  | .excuted => true
  | .sent => o.rst = .ok
  | .notSent => false

def Outcome.NotSms (o : Outcome) : Prop := currEventChkIsWaitSmsPdu o.analysis.usEvent = false

/-- The task takes a message from its queue, the stack answers what it is passed, and the
tasks do what follows from the answer. -/
def round (o : Outcome) (s : AtcApInfo) : Option AtcApInfo :=
  (taskEntry o.analysis s).bind fun s =>
    (if s.stack = [] then some s
      else (stackAnswer 0 o.rst s).bind fun s => (taskEntry o.analysis s).bind taskEntryEventCallback).bind fun s =>
    if s.listProcDue then taskContinue o.analysis s else some s

/-- Rounds in which the outcome of a text is that of its number, counted from `base`. -/
def rounds (outcomes : ℕ → Outcome) (base : ℕ) : ℕ → AtcApInfo → Option AtcApInfo
  | 0, s => some s
  | k + 1, s => (round (outcomes (s.analysed.length - base)) s).bind (rounds outcomes base k)

/-- The rounds lead to a state with an empty queue. -/
def Finishes (outcomes : ℕ → Outcome) (base : ℕ) (s s' : AtcApInfo) : Prop :=
  ∃ k, rounds outcomes base k s = some s' ∧ s'.msgInfo = []

/-- The commands up to the first one that does not end with success. -/
def tried (outcomes : ℕ → Outcome) : ℕ → List (List UInt8) → List (List UInt8)
  | _, [] => []
  | i, c :: cs => c :: if (outcomes i).isOk then tried outcomes (i + 1) cs else []

/-- The text is the command behind `AT` with its end. -/
def TextOf (c text : List UInt8) : Prop := ∃ k, text = atPrefix ++ c ++ List.replicate (k + 1) cr

/-- The commands up to the first failure were analysed in order, one result was reported
and the next request is accepted. -/
structure Sequenced (cmds : List (List UInt8)) (outcomes : ℕ → Outcome) (i : ℕ) (s s' : AtcApInfo) : Prop where
  texts : ∃ texts, s'.analysed = s.analysed ++ texts ∧ List.Forall₂ TextOf (tried outcomes i cmds) texts
  final : ∃ rst, s'.rsps = s.rsps ++ [rst]
  cleared : s'.atCascateInfo.ucCascadeAtFlg = false ∧ s'.atCascateInfo.ucCascadeAtCnt = 0 ∧
    s'.ucWaitOKOrErrorFlg = false

/-- Nothing is under way, and the queue holds one external request, whose length is passed
in 16 bits. -/
structure Requested (data : List UInt8) (s : AtcApInfo) : Prop where
  length : data.length < 2 ^ 16
  msgInfo : ∃ ticket, s.msgInfo = [.dataReq ⟨ticket, true, 0, data⟩]
  cascade : s.atCascateInfo.ucCascadeAtFlg = false
  waits : s.ucWaitOKOrErrorFlg = false
  notSms : currEventChkIsWaitSmsPdu s.usCurrEvent = false
  tempSeqNum : s.ucTempSeqNum = 0
  callbacks : s.msgInfoEventCb = []
  list : s.stAtcDataReqList = []
  stack : s.stack = []
  due : s.listProcDue = false

/-- A command is not empty and has no semicolon, quotation mark or carriage return. -/
def IsCommand (c : List UInt8) : Prop := c ≠ [] ∧ semicolon ∉ c ∧ quote ∉ c ∧ cr ∉ c

instance (c : List UInt8) : Decidable (IsCommand c) := instDecidableAnd

/-- Whatever happens to the commands, the line is executed in order with one result. -/
def Executed (cmds : List (List UInt8)) (s : AtcApInfo) : Prop :=
  ∀ outcomes : ℕ → Outcome, (∀ i, (outcomes i).NotSms) →
    ∃ s', Finishes outcomes s.analysed.length s s' ∧ Sequenced cmds outcomes 0 s s'

theorem finishes_unique {outcomes : ℕ → Outcome} {base : ℕ} {s s₁ s₂ : AtcApInfo}
    (h₁ : Finishes outcomes base s s₁) (h₂ : Finishes outcomes base s s₂) : s₁ = s₂ := by
  obtain ⟨k₁, hrun₁, hend₁⟩ := h₁
  obtain ⟨k₂, hrun₂, hend₂⟩ := h₂
  have hstop : ∀ o (t : AtcApInfo), t.msgInfo = [] → round o t = none := by
    intro o t ht
    unfold round taskEntry
    rw [ht]
    rfl
  induction k₁ generalizing s k₂ with
  | zero =>
    cases hrun₁
    cases k₂ with
    | zero =>
      cases hrun₂
      rfl
    | succ k₂ =>
      rw [rounds, hstop _ _ hend₁] at hrun₂
      cases hrun₂
  | succ k₁ ih =>
    obtain ⟨t, hround, hrun₁⟩ := Option.bind_eq_some_iff.mp hrun₁
    cases k₂ with
    | zero =>
      cases hrun₂
      rw [hstop _ _ hend₂] at hround
      cases hround
    | succ k₂ =>
      rw [rounds, hround] at hrun₂
      exact ih hrun₁ k₂ hrun₂

/-! ### One text from its analysis to its result -/

/-- No answer is under way and the request that is served has no API caller. -/
structure Working (s : AtcApInfo) : Prop where
  tempSeqNum : s.ucTempSeqNum = 0
  callbacks : s.msgInfoEventCb = []
  list : s.stAtcDataReqList = []
  stack : s.stack = []
  due : s.listProcDue = false
  user : s.ucUserAtFlg = false

/-- The state in which the text of a request has been analysed. -/
def analysedAs (o : Outcome) (text : List UInt8) (s : AtcApInfo) : AtcApInfo :=
  { s with usCurrEvent := o.analysis.usEvent, analysed := s.analysed ++ [text] }

theorem Working.analysedAs {s : AtcApInfo} (h : Working s) (o : Outcome) (text : List UInt8) :
    Working (analysedAs o text s) :=
  ⟨h.tempSeqNum, h.callbacks, h.list, h.stack, h.due, h.user⟩

/-- The state after a result was reported and no request was saved. -/
def ended (rst : CmdRst) (s : AtcApInfo) : AtcApInfo :=
  { s with
    usCurrEvent := .other 0xFFFF
    atCascateInfo := .zero
    rsps := s.rsps ++ [rst]
    ucWaitOKOrErrorFlg := false }

theorem continue_report {s : AtcApInfo} (h : Working s) (a : Analysis) (ucResult : ℕ) (rst : CmdRst) :
    taskContinue a (reportResult ucResult rst { s with usCurrEvent := .other 0xFFFF }) = some (ended rst s) := by
  cases s
  obtain ⟨rfl, rfl, rfl, rfl, rfl, rfl⟩ := h
  rfl

/-- The result of a text: a success goes on with the line or ends it, a failure ends it. -/
def resultOf (o : Outcome) (s : AtcApInfo) : AtcApInfo → Prop := fun t =>
  if o.isOk then t = sendOkRsp s else ∃ rst, t = sendErr rst s

/-- What a task and the stack do from the analysis of a text up to its result. -/
def settle (o : Outcome) (s : AtcApInfo) : Option AtcApInfo :=
  if s.stack = [] then some s
  else (stackAnswer 0 o.rst s).bind fun s => (taskEntry o.analysis s).bind taskEntryEventCallback

theorem reportResult_stack (ucResult : ℕ) (rst : CmdRst) (s : AtcApInfo) :
    (reportResult ucResult rst s).stack = s.stack := by
  unfold reportResult
  split
  · unfold appInterfaceInfoCmdRstProc
    split
    · rfl
    · split
      · rfl
      · rfl
  · rfl

theorem cascadeAtProcNextAt_stack (s : AtcApInfo) : (cascadeAtProcNextAt s).stack = s.stack := by
  unfold cascadeAtProcNextAt
  split
  · rfl
  · split
    · rfl
    · dsimp only
      split
      · rfl
      · rfl

theorem sendOkRsp_stack (s : AtcApInfo) : (sendOkRsp s).stack = s.stack := by
  unfold sendOkRsp
  dsimp only
  split
  · exact cascadeAtProcNextAt_stack _
  · split
    · rfl
    · exact reportResult_stack _ _ _

theorem sendErr_stack (rst : CmdRst) (s : AtcApInfo) : (sendErr rst s).stack = s.stack := by
  unfold sendErr
  dsimp only
  split
  · rfl
  · exact reportResult_stack _ _ _

theorem dataReqResultHandle_eq (r : ℕ) (s : AtcApInfo) :
    if r = commandEnd then dataReqResultHandle r s = sendOkRsp s
    else ∃ rst, dataReqResultHandle r s = sendErr rst s := by
  unfold dataReqResultHandle
  split
  · rfl
  · split
    · exact ⟨_, rfl⟩
    · split
      · exact ⟨_, rfl⟩
      · exact ⟨_, rfl⟩

theorem msgProcAtCmdRst_eq (rst : CmdRst) (s : AtcApInfo) :
    if rst = .ok then msgProcAtCmdRst rst s = sendOkRsp s else ∃ r, msgProcAtCmdRst rst s = sendErr r s := by
  cases rst with
  | ok => rfl
  | cmee code => exact ⟨_, rfl⟩
  | cms code => exact ⟨_, rfl⟩

/-- What becomes of an analysed text, before any answer of the stack. -/
def executed (o : Outcome) (req : DataReq) (s : AtcApInfo) : AtcApInfo :=
  match o.analysis.answer with
  | .result ucResult => dataReqResultHandle ucResult s
  | .excuted => sendOkRsp s
  | .sent => sndDataReqToShm req s
  | .notSent => sendErrorRsp s

theorem settle_of_stack {o : Outcome} {s : AtcApInfo} (h : s.stack = []) : settle o s = some s := if_pos h

/-- The answer of the stack comes back through both queues. -/
theorem settle_sent {o : Outcome} {req : DataReq} {s : AtcApInfo} (h : Working s) (hqueue : s.msgInfo = []) :
    settle o (sndDataReqToShm req s) = some (msgProcAtCmdRst o.rst s) := by
  cases s
  cases hqueue
  obtain ⟨rfl, rfl, rfl, rfl, rfl, rfl⟩ := h
  rfl

theorem settle_executed {o : Outcome} {req : DataReq} {s : AtcApInfo} (h : Working s) (hqueue : s.msgInfo = []) :
    ∃ t, settle o (executed o req s) = some t ∧ resultOf o s t := by
  unfold executed resultOf Outcome.isOk
  cases o.analysis.answer with
  | result r =>
    have hcases := dataReqResultHandle_eq r s
    refine ⟨dataReqResultHandle r s, settle_of_stack ?_, ?_⟩
    · split at hcases
      · exact (congrArg AtcApInfo.stack hcases).trans ((sendOkRsp_stack s).trans h.stack)
      · obtain ⟨rst, herr⟩ := hcases
        exact (congrArg AtcApInfo.stack herr).trans ((sendErr_stack rst s).trans h.stack)
    · simpa only [decide_eq_true_eq] using hcases
  | excuted => exact ⟨sendOkRsp s, settle_of_stack ((sendOkRsp_stack s).trans h.stack), rfl⟩
  | notSent =>
    exact ⟨sendErrorRsp s, settle_of_stack ((sendErr_stack _ s).trans h.stack), .cmee cmeUnknown, rfl⟩
  | sent =>
    refine ⟨msgProcAtCmdRst o.rst s, settle_sent h hqueue, ?_⟩
    simpa only [decide_eq_true_eq] using msgProcAtCmdRst_eq o.rst s

/-- With the last command of a line its result is reported. -/
theorem sendOkRsp_last {s : AtcApInfo} (hlast : ¬ 1 < s.atCascateInfo.ucCascadeAtCnt)
    (hcnt : s.atCascateInfo.ucCascadeAtCnt ≠ 0) :
    sendOkRsp s = reportResult appInterfaceResultSucc .ok { s with usCurrEvent := .other 0xFFFF } := by
  rw [sendOkRsp]
  dsimp only
  rw [if_neg hlast, if_neg hcnt]

theorem sendOkRsp_next {s : AtcApInfo} (hnext : 1 < s.atCascateInfo.ucCascadeAtCnt) :
    sendOkRsp s = cascadeAtProcNextAt { s with
      usCurrEvent := .other 0xFFFF
      atCascateInfo := { s.atCascateInfo with ucCascadeAtCnt := s.atCascateInfo.ucCascadeAtCnt - 1 } } := by
  rw [sendOkRsp]
  dsimp only
  rw [if_pos hnext]

theorem sendErr_report {s : AtcApInfo} (hcnt : s.atCascateInfo.ucCascadeAtCnt ≠ 0) (rst : CmdRst) :
    sendErr rst s = reportResult appInterfaceResultFail rst { s with usCurrEvent := .other 0xFFFF } := by
  rw [sendErr]
  dsimp only
  rw [if_neg hcnt]

/-- A round in which a text is analysed and its result is reported. -/
theorem round_final {o : Outcome} {req : DataReq} {s t : AtcApInfo} (h : Working s)
    (hqueue : s.msgInfo = []) (htask : taskEntry o.analysis t = some (executed o req s))
    (hcnt : s.atCascateInfo.ucCascadeAtCnt ≠ 0)
    (hlast : o.isOk → ¬ 1 < s.atCascateInfo.ucCascadeAtCnt) :
    ∃ rst, round o t = some (ended rst s) := by
  obtain ⟨u, hsettle, hresult⟩ := @settle_executed o req s h hqueue
  have hreport : ∃ ucResult rst, u = reportResult ucResult rst { s with usCurrEvent := .other 0xFFFF } := by
    unfold resultOf at hresult
    split at hresult
    next hok => exact ⟨_, _, hresult.trans (sendOkRsp_last (hlast hok) hcnt)⟩
    next =>
      obtain ⟨rst, herr⟩ := hresult
      exact ⟨_, _, herr.trans (sendErr_report hcnt rst)⟩
  obtain ⟨ucResult, rst, rfl⟩ := hreport
  refine ⟨rst, ?_⟩
  have hdue : (reportResult ucResult rst { s with usCurrEvent := .other 0xFFFF }).listProcDue := rfl
  unfold settle at hsettle
  unfold round
  rw [htask, Option.bind_some, hsettle, Option.bind_some, if_pos hdue]
  exact continue_report h _ _ _

/-- A round in which a text succeeds and the line goes on. -/
theorem round_next {o : Outcome} {req : DataReq} {s t : AtcApInfo} (h : Working s)
    (hqueue : s.msgInfo = []) (htask : taskEntry o.analysis t = some (executed o req s))
    (hok : o.isOk) (hdue : (sendOkRsp s).listProcDue = false) : round o t = some (sendOkRsp s) := by
  obtain ⟨u, hsettle, hresult⟩ := @settle_executed o req s h hqueue
  unfold resultOf at hresult
  rw [if_pos hok] at hresult
  subst hresult
  unfold settle at hsettle
  unfold round
  rw [htask, Option.bind_some, hsettle, Option.bind_some, if_neg (by rw [hdue]; exact Bool.false_ne_true)]

/-! ### The pieces of a line -/

theorem joined_cons {c : List UInt8} {cs : List (List UInt8)} (hcs : cs ≠ []) :
    joined (c :: cs) = c ++ semicolon :: joined cs := by
  cases cs with
  | nil => exact absurd rfl hcs
  | cons c' cs => rfl

theorem idxOf_semicolon {c rest : List UInt8} (hc : semicolon ∉ c) :
    (c ++ semicolon :: rest).idxOf semicolon = c.length := by
  rw [List.idxOf_append_of_notMem hc, List.idxOf_cons_self, Nat.add_zero]

/-- The buffer holds the commands that are still to come, from the offset on. -/
structure Buffered (cs : List (List UInt8)) (info : CascadeAtInfo) : Prop where
  flag : info.ucCascadeAtFlg = true
  buff : ∃ buff, info.pCasaadeAtBuff = some buff ∧ info.usLen = buff.length ∧ buff.drop info.offset = joined cs
  offset : 0 < info.offset
  some : cs ≠ []

theorem joined_ne_nil (cs : List (List UInt8)) : joined cs ≠ [] := by
  cases cs with
  | nil => exact List.cons_ne_nil _ _
  | cons c cs =>
    cases cs with
    | nil => simp [joined]
    | cons c' cs => simp [joined]

theorem Buffered.rest_eq {cs : List (List UInt8)} {info : CascadeAtInfo} {buff : List UInt8}
    (hlen : info.usLen = buff.length) (hdrop : buff.drop info.offset = joined cs) :
    (buff.drop info.offset).take (info.usLen - info.offset) = joined cs := by
  rw [hlen, ← List.length_drop, List.take_length, hdrop]

/-- A middle piece is cut off at its semicolon. -/
theorem nextAt_middle {c : List UInt8} {cs : List (List UInt8)} {s : AtcApInfo}
    (h : Buffered (c :: cs) s.atCascateInfo) (hc : semicolon ∉ c) (hcs : cs ≠ []) :
    ∃ offset, cascadeAtProcNextAt s = sendApDataReq false 0 (atPrefix ++ c ++ [cr])
        { s with atCascateInfo := { s.atCascateInfo with offset } } ∧
      Buffered cs { s.atCascateInfo with offset } := by
  obtain ⟨buff, hbuff, hlen, hdrop⟩ := h.buff
  have hrest := Buffered.rest_eq hlen hdrop
  have hjoined := joined_cons (c := c) hcs
  have hbehind : buff.drop (s.atCascateInfo.offset + (c.length + 1)) = joined cs := by
    rw [← List.drop_drop, hdrop, hjoined, List.drop_append, List.drop_of_length_le (Nat.le_succ _), List.nil_append,
      Nat.add_sub_cancel_left, List.drop_succ_cons, List.drop_zero]
  have hinside : s.atCascateInfo.offset + (c.length + 1) ≠ s.atCascateInfo.usLen := by
    intro hend
    rw [hend, hlen, List.drop_length] at hbehind
    exact joined_ne_nil cs hbehind.symm
  refine ⟨s.atCascateInfo.offset + (c.length + 1), ?_, h.flag, ⟨buff, hbuff, hlen, hbehind⟩, Nat.succ_pos _, hcs⟩
  have hlt : c.length < (c ++ semicolon :: joined cs).length := by
    rw [List.length_append, List.length_cons]
    omega
  unfold cascadeAtProcNextAt
  rw [if_neg (by rw [h.flag]; exact Bool.noConfusion), hbuff]
  dsimp only
  rw [hrest, hjoined, idxOf_semicolon hc, if_pos hlt, if_neg (Nat.ne_of_gt h.offset), if_neg hinside, List.take_left]

/-- The last piece keeps the end of the line and gets one more. -/
theorem nextAt_last {c : List UInt8} {s : AtcApInfo} (h : Buffered [c] s.atCascateInfo) (hc : semicolon ∉ c) :
    cascadeAtProcNextAt s = sendApDataReq false 0 (atPrefix ++ (c ++ [cr]) ++ [cr])
      { s with atCascateInfo := { s.atCascateInfo with pCasaadeAtBuff := none, usLen := 0 } } := by
  obtain ⟨buff, hbuff, hlen, hdrop⟩ := h.buff
  have hrest := Buffered.rest_eq hlen hdrop
  have hnone : semicolon ∉ c ++ [cr] := by
    rw [List.mem_append, not_or]
    exact ⟨hc, by decide⟩
  unfold cascadeAtProcNextAt
  rw [if_neg (by rw [h.flag]; exact Bool.noConfusion), hbuff]
  dsimp only
  rw [hrest]
  show (if (c ++ [cr]).idxOf semicolon < (c ++ [cr]).length then _ else _) = _
  rw [if_neg (by rw [List.idxOf_eq_length hnone]; exact Nat.lt_irrefl _)]
  rfl

/-- The text of `c` is in the queue, the commands `cs` are still in the line, and the counter
counts `c` and the next `q` commands. -/
structure Pending (c : List UInt8) (cs : List (List UInt8)) (q : ℕ) (s : AtcApInfo) : Prop where
  working : Working s
  msgInfo : ∃ text, s.msgInfo = [.dataReq ⟨0, false, 0, text⟩] ∧ TextOf c text
  cnt : s.atCascateInfo.ucCascadeAtCnt.toNat = q + 1
  buffered : 0 < q → Buffered cs s.atCascateInfo

theorem taskEntry_pending {a : Analysis} {text : List UInt8} {s : AtcApInfo} (h : Working s)
    (hqueue : s.msgInfo = [.dataReq ⟨0, false, 0, text⟩]) (o : Outcome) (ho : o.analysis = a) :
    taskEntry a s = some (executed o ⟨0, false, 0, text⟩ (analysedAs o text { s with msgInfo := [] })) := by
  subst ho
  unfold taskEntry
  rw [hqueue]
  dsimp only
  rw [if_neg (by rw [h.due]; exact Bool.false_ne_true)]
  rfl

/-- After a success the next piece of the line is in the queue. -/
theorem pending_next {c : List UInt8} {cs : List (List UInt8)} {q : ℕ} {s : AtcApInfo} (h : Working s)
    (hqueue : s.msgInfo = []) (hcnt : s.atCascateInfo.ucCascadeAtCnt.toNat = q + 2)
    (hbuff : Buffered (c :: cs) s.atCascateInfo) (hc : semicolon ∉ c) (hq : 0 < q → cs ≠ []) :
    Pending c cs q (sendOkRsp s) ∧ (sendOkRsp s).analysed = s.analysed ∧ (sendOkRsp s).rsps = s.rsps := by
  have hnext : 1 < s.atCascateInfo.ucCascadeAtCnt := by
    rw [UInt8.lt_iff_toNat_lt, hcnt]
    show 1 < q + 2
    omega
  have hless : (s.atCascateInfo.ucCascadeAtCnt - 1).toNat = q + 1 := by
    rw [UInt8.toNat_sub_of_le _ _ (UInt8.le_of_lt hnext), hcnt]
    rfl
  rw [sendOkRsp_next hnext]
  generalize hu : ({ s with
    usCurrEvent := .other 0xFFFF
    atCascateInfo := { s.atCascateInfo with ucCascadeAtCnt := s.atCascateInfo.ucCascadeAtCnt - 1 } } : AtcApInfo) = u
  have hwork : Working u := hu ▸ ⟨h.tempSeqNum, h.callbacks, h.list, h.stack, h.due, h.user⟩
  have hbuffer : Buffered (c :: cs) u.atCascateInfo := hu ▸ ⟨hbuff.flag, hbuff.buff, hbuff.offset, hbuff.some⟩
  have hcount : u.atCascateInfo.ucCascadeAtCnt.toNat = q + 1 := hu ▸ hless
  have hempty : u.msgInfo = [] := hu ▸ hqueue
  have hsame : u.analysed = s.analysed ∧ u.rsps = s.rsps := hu ▸ ⟨rfl, rfl⟩
  have hsent : ∀ (text : List UInt8) (info : CascadeAtInfo),
      (sendApDataReq false 0 text { u with atCascateInfo := info }).msgInfo = [.dataReq ⟨0, false, 0, text⟩] := by
    intro text info
    exact (congrArg (· ++ _) hempty).trans (List.nil_append _)
  by_cases hcs : cs = []
  · subst hcs
    rw [nextAt_last hbuffer hc]
    refine ⟨⟨⟨hwork.tempSeqNum, hwork.callbacks, hwork.list, hwork.stack, hwork.due, hwork.user⟩,
      ⟨_, hsent _ _, 1, ?_⟩, hcount, fun hpos => absurd rfl (hq hpos)⟩, hsame.1, hsame.2⟩
    rw [List.append_assoc, List.append_assoc, List.append_assoc]
    rfl
  · obtain ⟨offset, hsend, hrest⟩ := nextAt_middle hbuffer hc hcs
    rw [hsend]
    exact ⟨⟨⟨hwork.tempSeqNum, hwork.callbacks, hwork.list, hwork.stack, hwork.due, hwork.user⟩,
      ⟨_, hsent _ _, 0, rfl⟩, hcount, fun _ => hrest⟩, hsame.1, hsame.2⟩

theorem finishes_cons {outcomes : ℕ → Outcome} {base : ℕ} {s t s' : AtcApInfo}
    (hround : round (outcomes (s.analysed.length - base)) s = some t) (h : Finishes outcomes base t s') :
    Finishes outcomes base s s' := by
  obtain ⟨k, hrun, hend⟩ := h
  exact ⟨k + 1, by rw [rounds, hround]; exact hrun, hend⟩

/-- A text that was analysed last leads to the end of the line. -/
theorem sequenced_last {c text : List UInt8} {cs : List (List UInt8)} {outcomes : ℕ → Outcome} {i : ℕ}
    {s t : AtcApInfo} (htext : TextOf c text) (hlast : tried outcomes i (c :: cs) = [c])
    (hanalysed : t.analysed = s.analysed ++ [text]) (hrsps : t.rsps = s.rsps) (rst : CmdRst) :
    Sequenced (c :: cs) outcomes i s (ended rst t) := by
  refine ⟨⟨[text], hanalysed, ?_⟩, ⟨rst, congrArg (· ++ [rst]) hrsps⟩, rfl, rfl, rfl⟩
  rw [hlast]
  exact List.Forall₂.cons htext List.Forall₂.nil

/-- From a piece in the queue the line goes on to its end. -/
theorem pending_finishes {outcomes : ℕ → Outcome} {base q : ℕ} {c : List UInt8} {cs : List (List UInt8)}
    {s : AtcApInfo} (h : Pending c cs q s) (hq : q ≤ cs.length) (hcs : ∀ d ∈ cs, semicolon ∉ d)
    (hbase : base ≤ s.analysed.length) :
    ∃ s', Finishes outcomes base s s' ∧
      Sequenced (c :: cs.take q) outcomes (s.analysed.length - base) s s' := by
  induction q generalizing c cs s with
  | zero =>
    obtain ⟨text, hqueue, htext⟩ := h.msgInfo
    have hwork : Working (analysedAs (outcomes (s.analysed.length - base)) text { s with msgInfo := [] }) :=
      ⟨h.working.tempSeqNum, h.working.callbacks, h.working.list, h.working.stack, h.working.due, h.working.user⟩
    have hone : s.atCascateInfo.ucCascadeAtCnt = 1 := UInt8.toNat_inj.mp h.cnt
    obtain ⟨rst, hround⟩ := round_final hwork rfl (taskEntry_pending h.working hqueue _ rfl)
      (show s.atCascateInfo.ucCascadeAtCnt ≠ 0 by rw [hone]; decide)
      (fun _ => show ¬ 1 < s.atCascateInfo.ucCascadeAtCnt by rw [hone]; decide)
    refine ⟨_, finishes_cons hround ⟨0, rfl, rfl⟩, ?_⟩
    apply sequenced_last htext
    · rw [List.take_zero, tried, tried]
      split
      · rfl
      · rfl
    · rfl
    · rfl
  | succ q ih =>
    obtain ⟨text, hqueue, htext⟩ := h.msgInfo
    have hwork : Working (analysedAs (outcomes (s.analysed.length - base)) text { s with msgInfo := [] }) :=
      ⟨h.working.tempSeqNum, h.working.callbacks, h.working.list, h.working.stack, h.working.due, h.working.user⟩
    have htask := taskEntry_pending h.working hqueue (outcomes (s.analysed.length - base)) rfl
    by_cases hok : (outcomes (s.analysed.length - base)).isOk
    · obtain ⟨c', cs', rfl⟩ := List.exists_cons_of_ne_nil (h.buffered (Nat.succ_pos q)).some
      have hq' : q ≤ cs'.length := Nat.le_of_succ_le_succ hq
      obtain ⟨hnext, hanalysed, hrsps⟩ := pending_next hwork rfl h.cnt (h.buffered (Nat.succ_pos q))
        (hcs c' List.mem_cons_self) (fun hpos hnil => by
          rw [hnil] at hq'
          exact absurd hpos (Nat.not_lt.mpr hq'))
      have hround := round_next hwork rfl htask hok hnext.working.due
      have hlen : (sendOkRsp (analysedAs (outcomes (s.analysed.length - base)) text
          { s with msgInfo := [] })).analysed.length = s.analysed.length + 1 := by
        rw [hanalysed]
        exact List.length_append
      obtain ⟨s', hfinish, htail⟩ := ih hnext hq' (fun d hd => hcs d (List.mem_cons_of_mem c' hd)) (by omega)
      refine ⟨s', finishes_cons hround hfinish, ?_, ?_, htail.cleared⟩
      · obtain ⟨texts, hall, hforall⟩ := htail.texts
        rw [hlen, Nat.succ_sub hbase] at hforall
        refine ⟨text :: texts, ?_, ?_⟩
        · rw [hall, hanalysed]
          exact List.append_assoc _ _ _
        · rw [tried, if_pos hok]
          exact List.Forall₂.cons htext hforall
      · obtain ⟨rst, hrst⟩ := htail.final
        exact ⟨rst, by rw [hrst, hrsps]; rfl⟩
    · have hpos : s.atCascateInfo.ucCascadeAtCnt ≠ 0 := by
        intro hzero
        have hcnt := h.cnt
        rw [hzero] at hcnt
        cases hcnt
      obtain ⟨rst, hround⟩ := round_final hwork rfl htask hpos (fun hok' => absurd hok' hok)
      refine ⟨_, finishes_cons hround ⟨0, rfl, rfl⟩, ?_⟩
      apply sequenced_last htext
      · rw [tried, if_neg hok]
      · rfl
      · rfl

/-! ### The request of a line -/

theorem countSemicolons_fst (bs : List UInt8) (i : ℕ) (found : UInt8 × ℕ) :
    (countSemicolons bs i found).1 = found.1 + UInt8.ofNat (bs.count semicolon) := by
  induction bs generalizing i found with
  | nil => exact (UInt8.add_zero _).symm
  | cons b bs ih =>
    rw [countSemicolons, ih]
    by_cases hb : b = semicolon
    · rw [if_pos hb, hb, List.count_cons_self, UInt8.ofNat_add, UInt8.add_assoc, UInt8.add_comm 1]
      rfl
    · rw [if_neg hb, List.count_cons_of_ne hb]

theorem countSemicolons_snd_lt {bs : List UInt8} {i n : ℕ} {found : UInt8 × ℕ} (hfound : found.2 < n)
    (hn : i + bs.length ≤ n) : (countSemicolons bs i found).2 < n := by
  induction bs generalizing i found with
  | nil => exact hfound
  | cons b bs ih =>
    rw [List.length_cons] at hn
    rw [countSemicolons]
    apply ih
    · split
      · show i < n
        omega
      · exact hfound
    · omega

theorem joined_count {cmds : List (List UInt8)} (hcmds : ∀ c ∈ cmds, semicolon ∉ c) :
    (joined cmds).count semicolon = cmds.length - 1 := by
  induction cmds with
  | nil => rfl
  | cons c cs ih =>
    have hc : c.count semicolon = 0 := List.count_eq_zero.mpr (hcmds c List.mem_cons_self)
    cases cs with
    | nil =>
      show (c ++ [cr]).count semicolon = 0
      rw [List.count_append, hc]
      rfl
    | cons c' cs =>
      rw [joined, List.count_append, hc, List.count_cons_self, ih fun d hd => hcmds d (List.mem_cons_of_mem c hd)]
      simp

/-- The counter of a line, in eight bits. -/
def counted (cmds : List (List UInt8)) : UInt8 := UInt8.ofNat cmds.length

theorem line_counted {cmds : List (List UInt8)} (hcmds : ∀ c ∈ cmds, semicolon ∉ c) (hsome : cmds ≠ []) :
    (if (countSemicolons (line cmds) 0 (0, 0)).2 < (line cmds).length
      then (countSemicolons (line cmds) 0 (0, 0)).1 + 1 else (countSemicolons (line cmds) 0 (0, 0)).1) =
      counted cmds := by
  have hpos : 0 < (line cmds).length := by
    rw [line, List.length_append]
    exact Nat.add_pos_left (by decide) _
  have hcount : (line cmds).count semicolon = cmds.length - 1 := by
    rw [line, List.count_append, joined_count hcmds]
    exact Nat.zero_add _
  rw [if_pos (countSemicolons_snd_lt hpos (Nat.le_of_eq (Nat.zero_add _))), countSemicolons_fst, hcount,
    UInt8.zero_add, counted, ← UInt8.ofNat_one, ← UInt8.ofNat_add,
    Nat.sub_add_cancel (List.length_pos_iff.mpr hsome)]

/-- The first piece keeps its own first two letters. -/
theorem nextAt_first {c : List UInt8} {cs : List (List UInt8)} {cnt : UInt8} {s : AtcApInfo} (hc : semicolon ∉ c)
    (hcs : cs ≠ []) :
    ∃ offset, cascadeAtProcNextAt { s with
        atCascateInfo := ⟨true, cnt, some (line (c :: cs)), (line (c :: cs)).length, 0⟩ } =
        sendApDataReq false 0 (atPrefix ++ c ++ [cr])
          { s with atCascateInfo := ⟨true, cnt, some (line (c :: cs)), (line (c :: cs)).length, offset⟩ } ∧
      Buffered cs ⟨true, cnt, some (line (c :: cs)), (line (c :: cs)).length, offset⟩ := by
  have hline : line (c :: cs) = (atPrefix ++ c) ++ semicolon :: joined cs := by
    rw [line, joined_cons hcs, List.append_assoc]
  have hnot : semicolon ∉ atPrefix ++ c := by
    rw [List.mem_append, not_or]
    exact ⟨by decide, hc⟩
  have hbehind : (line (c :: cs)).drop ((atPrefix ++ c).length + 1) = joined cs := by
    rw [hline, List.drop_append, List.drop_of_length_le (Nat.le_succ _), List.nil_append, Nat.add_sub_cancel_left,
      List.drop_succ_cons, List.drop_zero]
  have hinside : 0 + ((atPrefix ++ c).length + 1) ≠ (line (c :: cs)).length := by
    intro hend
    rw [Nat.zero_add] at hend
    rw [hend, List.drop_length] at hbehind
    exact joined_ne_nil cs hbehind.symm
  refine ⟨(atPrefix ++ c).length + 1, ?_, rfl, ⟨_, rfl, rfl, hbehind⟩, Nat.succ_pos _, hcs⟩
  have hlt : (atPrefix ++ c).length < (line (c :: cs)).length := by
    simp only [hline, List.length_append, List.length_cons]
    omega
  have hfirst : (line (c :: cs)).idxOf semicolon = (atPrefix ++ c).length := by
    rw [hline, idxOf_semicolon hnot]
  have htake : (line (c :: cs)).take (atPrefix ++ c).length = atPrefix ++ c := by
    rw [hline, List.take_left]
  unfold cascadeAtProcNextAt
  dsimp only
  rw [if_neg (by decide), List.drop_zero, Nat.sub_zero, List.take_length, hfirst, if_pos hlt, if_pos rfl,
    if_neg hinside, List.nil_append, htake, Nat.zero_add]

/-- A round in which nothing is passed to the stack and no result is reported. -/
theorem round_of_task {o : Outcome} {s t : AtcApInfo} (htask : taskEntry o.analysis s = some t) (hstack : t.stack = [])
    (hdue : t.listProcDue = false) : round o s = some t := by
  unfold round
  rw [htask, Option.bind_some, if_pos hstack, Option.bind_some, if_neg (by rw [hdue]; exact Bool.false_ne_true)]

/-- The state in which the task takes up an external request without an API caller. -/
def takenUp (s : AtcApInfo) : AtcApInfo :=
  { s with msgInfo := [], ucWaitOKOrErrorFlg := true, ucUserAtFlg := false }

section Request

variable {cmds : List (List UInt8)} {s : AtcApInfo} (h : Requested (line cmds) s)
  (hcmds : ∀ c ∈ cmds, semicolon ∉ c) (hsome : cmds ≠ [])
include h

theorem takenUp_working : Working (takenUp s) :=
  ⟨h.tempSeqNum, h.callbacks, h.list, h.stack, h.due, rfl⟩

theorem taskEntry_requested (a : Analysis) :
    ∃ ticket, taskEntry a s = some (dataReqProcAtCmd a ⟨ticket, true, 0, line cmds⟩ (takenUp s)) := by
  obtain ⟨ticket, hqueue⟩ := h.msgInfo
  refine ⟨ticket, ?_⟩
  unfold taskEntry
  rw [hqueue]
  dsimp only
  rw [if_neg (by rw [h.due]; exact Bool.false_ne_true), normalMsgDistribute, msgProcAtcApDataReq, if_pos rfl,
    if_neg (by rw [h.notSms]; exact Bool.false_ne_true), if_neg (by rw [h.waits]; exact Bool.false_ne_true)]
  rfl

include hcmds hsome

theorem isCascateAtChk_requested (ticket : ℕ) :
    isCascateAtChk ⟨ticket, true, 0, line cmds⟩ (takenUp s) =
      if 1 < counted cmds then
        (true, cascadeAtProcNextAt
          { takenUp s with atCascateInfo := ⟨true, counted cmds, some (line cmds), (line cmds).length, 0⟩ })
      else (false, { takenUp s with atCascateInfo := { s.atCascateInfo with ucCascadeAtCnt := counted cmds } }) := by
  unfold isCascateAtChk
  dsimp only
  have hflag : ¬ (takenUp s).atCascateInfo.ucCascadeAtFlg = true := fun hflag => by
    rw [show (takenUp s).atCascateInfo.ucCascadeAtFlg = false from h.cascade] at hflag
    cases hflag
  have hevent : ¬ currEventChkIsWaitSmsPdu (takenUp s).usCurrEvent = true := fun hevent => by
    rw [show currEventChkIsWaitSmsPdu (takenUp s).usCurrEvent = false from h.notSms] at hevent
    cases hevent
  rw [if_neg (by decide), if_neg hflag, if_neg hevent, line_counted hcmds hsome]
  rfl

/-- A line that the counter takes for several commands puts its first piece into the queue. -/
theorem round_split (hcnt : 1 < counted cmds) (o : Outcome) :
    ∃ t, round o s = some t ∧ t.analysed = s.analysed ∧ t.rsps = s.rsps ∧
      ∃ c cs, cmds = c :: cs ∧ Pending c cs ((counted cmds).toNat - 1) t := by
  obtain ⟨c, cs, rfl⟩ := List.exists_cons_of_ne_nil hsome
  have hcs : cs ≠ [] := by
    rintro rfl
    have hone : ¬ 1 < (1 : UInt8) := by decide
    exact hone hcnt
  have hwork := takenUp_working h
  obtain ⟨ticket, htask⟩ := taskEntry_requested h o.analysis
  obtain ⟨offset, hsend, hbuff⟩ :=
    @nextAt_first c cs (counted (c :: cs)) (takenUp s) (hcmds c List.mem_cons_self) hcs
  rw [dataReqProcAtCmd, isCascateAtChk_requested h hcmds hsome, if_pos hcnt] at htask
  dsimp only at htask
  rw [if_pos rfl, hsend] at htask
  have hround := round_of_task htask h.stack h.due
  refine ⟨_, hround, rfl, rfl, c, cs, rfl, ⟨⟨hwork.tempSeqNum, hwork.callbacks, hwork.list, hwork.stack, hwork.due, rfl⟩,
    ⟨_, rfl, 0, rfl⟩, ?_, fun _ => hbuff⟩⟩
  have hpos : 1 < (counted (c :: cs)).toNat := UInt8.lt_iff_toNat_lt.mp hcnt
  show (counted (c :: cs)).toNat = (counted (c :: cs)).toNat - 1 + 1
  omega

/-- Otherwise the whole line is analysed as one command. -/
theorem taskEntry_single (hcnt : ¬ 1 < counted cmds) (o : Outcome) :
    ∃ req t, taskEntry o.analysis s = some (executed o req t) ∧ Working t ∧ t.msgInfo = [] ∧
      t.atCascateInfo.ucCascadeAtCnt = counted cmds ∧ t.analysed = s.analysed ++ [line cmds] ∧ t.rsps = s.rsps := by
  have hwork := takenUp_working h
  obtain ⟨ticket, htask⟩ := taskEntry_requested h o.analysis
  refine ⟨⟨ticket, true, 0, line cmds⟩, analysedAs o (line cmds)
    { takenUp s with atCascateInfo := { s.atCascateInfo with ucCascadeAtCnt := counted cmds } }, ?_,
    ⟨hwork.tempSeqNum, hwork.callbacks, hwork.list, hwork.stack, hwork.due, hwork.user⟩, rfl, rfl, rfl, rfl⟩
  rw [htask, dataReqProcAtCmd, isCascateAtChk_requested h hcmds hsome, if_neg hcnt]
  rfl

/-- The commands that the counter counts are executed in order, with one result. -/
theorem split_finishes (hcnt : 1 < counted cmds) (outcomes : ℕ → Outcome) :
    ∃ s', Finishes outcomes s.analysed.length s s' ∧
      Sequenced (cmds.take (counted cmds).toNat) outcomes 0 s s' := by
  have hpos : 1 < (counted cmds).toNat := UInt8.lt_iff_toNat_lt.mp hcnt
  obtain ⟨t, hround, hanalysed, hrsps, c, cs, rfl, hpending⟩ :=
    round_split h hcmds hsome hcnt (outcomes (s.analysed.length - s.analysed.length))
  have hle : (counted (c :: cs)).toNat ≤ cs.length + 1 := by
    rw [counted, UInt8.toNat_ofNat']
    exact Nat.mod_le _ _
  obtain ⟨s', hfinish, hseq⟩ := @pending_finishes outcomes s.analysed.length _ _ _ _ hpending
    (by omega) (fun d hd => hcmds d (List.mem_cons_of_mem c hd)) (Nat.le_of_eq (congrArg List.length hanalysed).symm)
  have htake : (c :: cs).take (counted (c :: cs)).toNat = c :: cs.take ((counted (c :: cs)).toNat - 1) := by
    obtain ⟨k, hk⟩ := Nat.exists_eq_add_of_lt hpos
    rw [hk]
    rfl
  rw [hanalysed, Nat.sub_self] at hseq
  refine ⟨s', finishes_cons hround hfinish, ?_, ?_, hseq.cleared⟩
  · rw [htake, ← hanalysed]
    exact hseq.texts
  · rw [← hrsps]
    exact hseq.final

theorem executed_of_lt (hlen : cmds.length < 256) : Executed cmds s := by
  intro outcomes _
  have hcnt : (counted cmds).toNat = cmds.length := by
    rw [counted, UInt8.toNat_ofNat', Nat.mod_eq_of_lt hlen]
  by_cases hmore : 1 < counted cmds
  · obtain ⟨s', hfinish, hseq⟩ := split_finishes h hcmds hsome hmore outcomes
    rw [hcnt, List.take_length] at hseq
    exact ⟨s', hfinish, hseq⟩
  · have hle : ¬ 1 < (counted cmds).toNat := fun hlt => hmore (UInt8.lt_iff_toNat_lt.mpr hlt)
    have hpos := List.length_pos_iff.mpr hsome
    obtain ⟨c, rfl⟩ := List.length_eq_one_iff.mp (show cmds.length = 1 by omega)
    obtain ⟨req, t, htask, hwork, hqueue, hcount, hanalysed, hrsps⟩ :=
      taskEntry_single h hcmds hsome hmore (outcomes (s.analysed.length - s.analysed.length))
    have hone : t.atCascateInfo.ucCascadeAtCnt = 1 := hcount
    obtain ⟨rst, hround⟩ := round_final hwork hqueue htask (by rw [hone]; decide) (fun _ => by rw [hone]; decide)
    refine ⟨_, finishes_cons hround ⟨0, rfl, hqueue⟩, ?_⟩
    apply sequenced_last (c := c)
    · exact ⟨0, (List.append_assoc _ _ _).symm⟩
    · rw [tried, tried]
      split
      · rfl
      · rfl
    · exact hanalysed
    · exact hrsps

end Request

/-- Every command ends with success at once. -/
def allOk : ℕ → Outcome := fun _ => ⟨⟨.other 0, .excuted⟩, .ok⟩

theorem tried_allOk (i : ℕ) (cmds : List (List UInt8)) : tried allOk i cmds = cmds := by
  induction cmds generalizing i with
  | nil => rfl
  | cons c cs ih =>
    rw [tried, ih]
    rfl

theorem Sequenced.length {cmds : List (List UInt8)} {s s' : AtcApInfo} (h : Sequenced cmds allOk 0 s s') :
    s'.analysed.length = s.analysed.length + cmds.length := by
  obtain ⟨texts, hall, hforall⟩ := h.texts
  rw [hall, List.length_append, ← List.Forall₂.length_eq hforall, tried_allOk]

/-- With 256 commands or more the counter misses some. -/
theorem not_executed_of_ge {cmds : List (List UInt8)} {s : AtcApInfo} (h : Requested (line cmds) s)
    (hcmds : ∀ c ∈ cmds, semicolon ∉ c) (hlen : 256 ≤ cmds.length) : ¬ Executed cmds s := by
  intro hexecuted
  have hsome : cmds ≠ [] := by
    rintro rfl
    exact absurd hlen (by decide)
  obtain ⟨s', hfinish, hseq⟩ := hexecuted allOk fun _ => rfl
  have hall := hseq.length
  by_cases hmore : 1 < counted cmds
  · obtain ⟨t, hfinish', hseq'⟩ := split_finishes h hcmds hsome hmore allOk
    have hless : (cmds.take (counted cmds).toNat).length < 256 := by
      rw [List.length_take]
      exact Nat.lt_of_le_of_lt (Nat.min_le_left _ _) (counted cmds).toNat_lt
    rw [finishes_unique hfinish hfinish', hseq'.length] at hall
    omega
  · obtain ⟨req, t, htask, hwork, hqueue, hcount, hanalysed, -⟩ := taskEntry_single h hcmds hsome hmore (allOk 0)
    have hsingle : ∃ u, Finishes allOk s.analysed.length s u ∧ u.analysed = s.analysed ++ [line cmds] := by
      by_cases hzero : counted cmds = 0
      · have hdropped : sendOkRsp t = { t with usCurrEvent := .other 0xFFFF } := by
          rw [sendOkRsp]
          dsimp only
          rw [hcount, hzero, if_neg (by decide), if_pos rfl]
        have hround := round_next hwork hqueue htask rfl (by rw [hdropped]; exact hwork.due)
        rw [hdropped] at hround
        exact ⟨_, finishes_cons hround ⟨0, rfl, hqueue⟩, hanalysed⟩
      · obtain ⟨rst, hround⟩ := round_final hwork hqueue htask (by rw [hcount]; exact hzero)
          (fun _ => by rw [hcount]; exact hmore)
        exact ⟨_, finishes_cons hround ⟨0, rfl, hqueue⟩, hanalysed⟩
    obtain ⟨u, hfinish', hsame⟩ := hsingle
    rw [finishes_unique hfinish hfinish', hsame, List.length_append, List.length_singleton] at hall
    omega

/-- A line of commands is executed in order, with one result and a free task at its end,
exactly when it has fewer than 256 commands. -/
theorem executed_iff {cmds : List (List UInt8)} {s : AtcApInfo} (hcmds : ∀ c ∈ cmds, IsCommand c)
    (hsome : cmds ≠ []) (h : Requested (line cmds) s) : Executed cmds s ↔ cmds.length < 256 := by
  have hfree : ∀ c ∈ cmds, semicolon ∉ c := fun c hc => (hcmds c hc).2.1
  constructor
  · intro hexecuted
    apply Nat.lt_of_not_le
    intro hlen
    exact not_executed_of_ge h hfree hlen hexecuted
  · exact executed_of_lt h hfree hsome

/-- A line that has just reached the idle task. -/
def requestOf (data : List UInt8) : AtcApInfo :=
  { AtcApInfo.init with msgInfo := [.dataReq ⟨1, true, 0, data⟩] }

theorem requestOf_requested {data : List UInt8} (h : data.length < 2 ^ 16) : Requested data (requestOf data) :=
  ⟨h, ⟨1, rfl⟩, rfl, rfl, rfl, rfl, rfl, rfl, rfl, rfl⟩

theorem two_commands_executed : Executed [[43, 65], [43, 66]] (requestOf (line [[43, 65], [43, 66]])) :=
  (executed_iff (by decide) (by decide) (requestOf_requested (by decide))).mpr (by decide)

/-- The line has 256 commands: its counter is zero, no result is reported and the flag that
makes requests wait stays set. -/
theorem commands_256_not_executed :
    (∀ c ∈ List.replicate 256 [(65 : UInt8)], IsCommand c) ∧
      Requested (line (List.replicate 256 [65])) (requestOf (line (List.replicate 256 [65]))) ∧
      ¬ Executed (List.replicate 256 [65]) (requestOf (line (List.replicate 256 [65]))) := by
  have hcmds : ∀ c ∈ List.replicate 256 [(65 : UInt8)], IsCommand c := by
    intro c hc
    rw [List.eq_of_mem_replicate hc]
    decide
  have hrequested := requestOf_requested (show (line (List.replicate 256 [65])).length < 2 ^ 16 by decide +kernel)
  exact ⟨hcmds, hrequested, not_executed_of_ge hrequested (fun c hc => (hcmds c hc).2.1)
    (Nat.le_of_eq List.length_replicate.symm)⟩

end NbiotXY1100.AtcCascade
