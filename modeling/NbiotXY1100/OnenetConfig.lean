import NbiotXY1100.SlotTables
import NbiotXY1100.AtSocketBuffer
import NbiotXY1100.ByteBuffers

/-! # The fragments of a OneNET configuration

`AT+MIPLCREATE=<totalsize>,<config>,<index>,<currentsize>,<flag>` brings a configuration in fragments,
the last of them with the index 0. An entry of `onenet_context_configs` without `config_hex` is empty. A
context that runs keeps the entry that its configuration came in, and the exit of `onet_at_pump` empties
that entry. The tables have any number of entries; `CIS_REF_MAX_NUM` is 1. -/
namespace NbiotXY1100.OnenetConfig
open SlotTables ByteBuffers AtSocketBuffer

def cisParamError : ℕ := 601

def cisStatusError : ℕ := 602

/-- `sizeof(g_softap_fac_nv->onenet_config_hex)`. -/
def onenetConfigHexSize : ℕ := 120

/-- The parameters of a request; those that are missing keep their defaults. -/
structure Request where
  totalsize : ℤ
  configStr : List UInt8
  index : ℤ
  currentsize : ℤ
  flag : ℤ

/-- A fragment that passed the checks. -/
structure Fragment where
  totalsize : ℕ
  data : List UInt8
  index : ℕ
  flag : ℕ
  deriving DecidableEq, Repr

/-- The checks require data of this length. -/
def Fragment.currentsize (f : Fragment) : ℕ := f.data.length

/-- The checks on the parameters and the conversion of the text. -/
def Request.fragment (r : Request) : Option Fragment :=
  if r.totalsize ≤ 0 ∨ r.currentsize ≤ 0 ∨ r.index < 0 ∨ r.flag < 0 ∨ 2 < r.flag ∨
      (r.configStr.length : ℤ) ≠ r.currentsize * 2 ∨ 120 * 2 ≤ r.configStr.length then none
  else (hexstr2bytes r.configStr).map fun data => ⟨r.totalsize.toNat, data, r.index.toNat, r.flag.toNat⟩

/-- An entry of `onenet_context_configs` whose `config_hex` is not null; `total_len` is the size of the block. -/
structure Config where
  configHex : List UInt8
  offset : ℕ
  index : ℕ
  deriving DecidableEq, Repr

def Config.totalLen (c : Config) : ℕ := c.configHex.length

/-- The first test of `find_proper_onenet_context_config`. -/
def Config.continuedBy (f : Fragment) (c : Config) : Bool :=
  c.totalLen = f.totalsize && c.index = f.index + 1 && c.offset + f.currentsize ≤ f.totalsize

/-- An entry with a new block. -/
def Config.new (f : Fragment) : Config := ⟨List.replicate f.totalsize 0, 0, 0⟩

/-- The copy of a fragment to the entry. What is written behind the block is lost. -/
def Config.append (c : Config) (f : Fragment) : Config :=
  ⟨(splice c.configHex c.offset f.data).take c.totalLen, c.offset + f.currentsize, f.index⟩

variable {n : ℕ}

/-- `onenet_context_configs`, for each of the `onenet_context_refs` the entry that its running context
uses, and the configuration in the factory NV. -/
structure Table (n : ℕ) where
  configs : Fin n → Option Config
  contexts : Fin n → Option (Fin n)
  onenetConfigHex : List UInt8
  onenetConfigLen : ℕ

def Table.init : Table n := ⟨fun _ => none, fun _ => none, List.replicate onenetConfigHexSize 0, 0⟩

def findProperOnenetContextConfig (f : Fragment) (configs : Fin n → Option Config) : Option (Fin n) :=
  match findSlot (Config.continuedBy f) configs with
  | some i => some i
  | none => freeSlot configs

def getFreeOnetContextRef (t : Table n) : Option (Fin n) := freeSlot t.contexts

inductive Rsp (n : ℕ)
  /-- No text of its own. -/
  | plain
  | cisError (code : ℕ)
  | miplcreate (ref : Fin n)

/-- A copy to a `config_hex`: where it starts, the `total_len` of the entry, and the fragment. -/
structure Write where
  start : ℕ
  totalLen : ℕ
  fragment : Fragment

/-- What a step does: the copy to an entry, the configuration that `onet_init` is called with, the answer,
and the tables afterwards unless an assertion stops the system. -/
structure Outcome (n : ℕ) where
  write : Option Write
  onetInit : Option Config
  rsp : Rsp n
  next : Option (Table n)

/-- A request that fails before an entry is chosen. -/
def refused (code : ℕ) (t : Table n) : Outcome n := ⟨none, none, .cisError code, some t⟩

/-- The label `failed` with an entry chosen: the entry is emptied. -/
def failed (write : Write) (onetInit : Option Config) (code : ℕ) (i : Fin n) (t : Table n) : Outcome n :=
  ⟨some write, onetInit, .cisError code, some { t with configs := Function.update t.configs i none }⟩

/-- The context runs, and the configuration goes to the factory NV, where a long one does not fit. -/
def started (write : Write) (c : Config) (i ref : Fin n) (t : Table n) : Outcome n :=
  ⟨some write, some c, .miplcreate ref,
    if c.totalLen < onenetConfigHexSize then
      some ⟨Function.update t.configs i (some c), Function.update t.contexts ref (some i),
        c.configHex ++ List.replicate (onenetConfigHexSize - c.totalLen) 0, c.totalLen⟩
    else none⟩

/-- The fragment is copied to the entry `i`. The last one has to complete the configuration. -/
def takeFragment (initOk : Bool) (f : Fragment) (i : Fin n) (t : Table n) : Outcome n :=
  let old := (t.configs i).getD (Config.new f)
  let c := old.append f
  let write : Write := ⟨old.offset, old.totalLen, f⟩
  if f.index = 0 ∧ f.flag = 0 then
    if c.totalLen ≠ c.offset then failed write none cisParamError i t
    else
      match getFreeOnetContextRef t with
      | none => failed write none cisStatusError i t
      | some ref => if initOk then started write c i ref t else failed write (some c) cisStatusError i t
  else ⟨some write, none, .plain, some { t with configs := Function.update t.configs i (some c) }⟩

/-- `initOk` is whether `onet_init` succeeds, should it be called. -/
def atProcMiplconfReq (initOk : Bool) (r : Request) (t : Table n) : Outcome n :=
  match r.fragment with
  | none => refused cisParamError t
  | some f =>
    match findProperOnenetContextConfig f t.configs with
    | none => refused cisStatusError t
    | some i => takeFragment initOk f i t

/-- The exit of `onet_at_pump`. -/
def onetAtPumpExit (ref : Fin n) (t : Table n) : Table n :=
  match t.contexts ref with
  | none => t
  | some i =>
    { t with configs := Function.update t.configs i none, contexts := Function.update t.contexts ref none }

inductive Event (n : ℕ)
  | request (r : Request) (initOk : Bool)
  | ended (ref : Fin n)

def react : Event n → Table n → Outcome n
  | .request r initOk, t => atProcMiplconfReq initOk r t
  | .ended ref, t => ⟨none, none, .plain, some (onetAtPumpExit ref t)⟩

def step (e : Event n) (t : Table n) : Option (Table n) := (react e t).next

/-! ### Fragments and entries -/

variable {f : Fragment} {c : Config} {t : Table n} {i : Fin n}

theorem new_totalLen (f : Fragment) : (Config.new f).totalLen = f.totalsize := List.length_replicate

theorem findProper_cases (h : findProperOnenetContextConfig f t.configs = some i) :
    t.configs i = none ∨ ∃ c, t.configs i = some c ∧ c.continuedBy f = true := by
  unfold findProperOnenetContextConfig at h
  cases hfind : findSlot (Config.continuedBy f) t.configs with
  | none =>
    rw [hfind] at h
    exact .inl (freeSlot_some h)
  | some j =>
    rw [hfind] at h
    cases h
    exact .inr (findSlot_some hfind)

theorem continuedBy_iff : c.continuedBy f = true ↔
    c.totalLen = f.totalsize ∧ c.index = f.index + 1 ∧ c.offset + f.currentsize ≤ f.totalsize := by
  simp only [Config.continuedBy, Bool.and_eq_true, decide_eq_true_eq, and_assoc]

/-- A fragment that is longer than its configuration continues no entry. -/
theorem not_continuedBy (h : f.totalsize < f.currentsize) : c.continuedBy f = false := by
  apply Bool.eq_false_iff.mpr
  intro hcont
  have hfit := (continuedBy_iff.mp hcont).2.2
  omega

/-- What a fragment that fits adds to the entry. -/
theorem append_fits (h : c.offset + f.currentsize ≤ c.totalLen) :
    (c.append f).totalLen = c.totalLen ∧
      (c.append f).configHex.take (c.append f).offset = c.configHex.take c.offset ++ f.data := by
  have hlen : (splice c.configHex c.offset f.data).length = c.totalLen := splice_length h
  have htake : (splice c.configHex c.offset f.data).take c.totalLen = splice c.configHex c.offset f.data :=
    List.take_of_length_le (Nat.le_of_eq hlen)
  constructor
  · simp only [Config.append, Config.totalLen] at htake ⊢
    rw [htake]
    exact hlen
  · have hfront : (c.configHex.take c.offset ++ f.data).length = c.offset + f.currentsize := by
      rw [List.length_append, List.length_take, Fragment.currentsize]
      unfold Config.totalLen at h
      omega
    simp only [Config.append, htake]
    rw [splice, List.take_left' hfront]

/-- What happens with a fragment for which an entry is found. -/
inductive Taken (f : Fragment) (i : Fin n) (t : Table n) (old : Config) : Outcome n → Prop
  | stored : Taken f i t old
      ⟨some ⟨old.offset, old.totalLen, f⟩, none, .plain,
        some { t with configs := Function.update t.configs i (some (old.append f)) }⟩
  | failed (code : ℕ) : Taken f i t old (failed ⟨old.offset, old.totalLen, f⟩ none code i t)
  | initFailed (hindex : f.index = 0) (hall : (old.append f).totalLen = (old.append f).offset) :
      Taken f i t old (OnenetConfig.failed ⟨old.offset, old.totalLen, f⟩ (some (old.append f)) cisStatusError i t)
  | started (ref : Fin n) (hindex : f.index = 0) (hall : (old.append f).totalLen = (old.append f).offset)
      (hfree : t.contexts ref = none) :
      Taken f i t old (started ⟨old.offset, old.totalLen, f⟩ (old.append f) i ref t)

theorem takeFragment_taken (initOk : Bool) (f : Fragment) (i : Fin n) (t : Table n) :
    Taken f i t ((t.configs i).getD (Config.new f)) (takeFragment initOk f i t) := by
  unfold takeFragment
  by_cases hlast : f.index = 0 ∧ f.flag = 0
  · simp only [if_pos hlast]
    by_cases hall : (((t.configs i).getD (Config.new f)).append f).totalLen ≠
        (((t.configs i).getD (Config.new f)).append f).offset
    · rw [if_pos hall]
      exact .failed cisParamError
    · rw [if_neg hall]
      cases hfree : getFreeOnetContextRef t with
      | none => exact .failed cisStatusError
      | some ref =>
        cases initOk with
        | true => exact .started ref hlast.1 (not_not.mp hall) (freeSlot_some hfree)
        | false => exact .initFailed hlast.1 (not_not.mp hall)
  · simp only [if_neg hlast]
    exact .stored

/-- Everything that a step can do. -/
inductive Reacts (t : Table n) : Event n → Outcome n → Prop
  | refused (r : Request) (initOk : Bool) (code : ℕ) (h : ∀ f ∈ r.fragment, ∀ i, t.configs i ≠ none) :
      Reacts t (.request r initOk) (refused code t)
  | taken {r : Request} (initOk : Bool) {f : Fragment} {i : Fin n} {o : Outcome n} (hf : r.fragment = some f)
      (hi : t.configs i = none ∨ ∃ c, t.configs i = some c ∧ c.continuedBy f = true)
      (ho : Taken f i t ((t.configs i).getD (Config.new f)) o) : Reacts t (.request r initOk) o
  | ended (ref : Fin n) : Reacts t (.ended ref) ⟨none, none, .plain, some (onetAtPumpExit ref t)⟩

theorem freeSlot_none {α : Type*} {s : Fin n → Option α} (h : freeSlot s = none) (i : Fin n) : s i ≠ none := by
  have hall := List.find?_eq_none.mp h i (List.mem_finRange i)
  intro hi
  exact hall (Option.isNone_iff_eq_none.mpr hi)

theorem react_reacts (e : Event n) (t : Table n) : Reacts t e (react e t) := by
  cases e with
  | ended ref => exact .ended ref
  | request r initOk =>
    change Reacts t (.request r initOk) (atProcMiplconfReq initOk r t)
    unfold atProcMiplconfReq
    cases hf : r.fragment with
    | none => exact .refused r initOk cisParamError fun f h => nomatch hf.symm.trans h
    | some f =>
      dsimp only
      cases hi : findProperOnenetContextConfig f t.configs with
      | none =>
        refine .refused r initOk cisStatusError fun _ _ i => ?_
        unfold findProperOnenetContextConfig at hi
        cases hfind : findSlot (Config.continuedBy f) t.configs with
        | none =>
          rw [hfind] at hi
          exact freeSlot_none hi i
        | some j => simp [hfind] at hi
      | some i => exact .taken initOk hf (findProper_cases hi) (takeFragment_taken initOk f i t)

end NbiotXY1100.OnenetConfig
