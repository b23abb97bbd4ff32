import NbiotXY1100.AtSocketBuffer
import NbiotXY1100.ChunkQueue
import Mathlib.Data.List.GetD
import Mathlib.Data.List.Induction

/-! # The receive buffer is a queue

The answers are read as the user reads them: the fields between the commas, the data in hexadecimal. What
the answers give are parts of the datagrams that were accepted, in the order of their arrival. -/
namespace NbiotXY1100.AtSocketFifo
open CStrings AtSocketBuffer ChunkQueue

/-- The fields of an answer. -/
structure Reply where
  ip : List UInt8
  port : List UInt8
  length : List UInt8
  data : List UInt8

def parseReply (rsp : List UInt8) : Option Reply :=
  (strchr comma rsp).bind fun head => (strchr comma head.2).bind fun ip => (strchr comma ip.2).bind fun port =>
    (strchr comma port.2).bind fun length => (strchr comma length.2).bind fun hex =>
      (hexstr2bytes hex.1).map fun data => ⟨ip.1, port.1, length.1, data⟩

/-- A datagram with the texts of its remote address and port. -/
def chunkOf (nod : RcvDataNod) : Chunk UInt8 (List UInt8 × List UInt8) :=
  ⟨nod.data, inetNtop4 nod.sockaddrInfo.sinAddr, decimal nod.sockaddrInfo.sinPort.toNat⟩

/-- The answer that gives a part of a datagram. -/
def replyOf (c : Chunk UInt8 (List UInt8 × List UInt8)) : Reply :=
  ⟨c.tag.1, c.tag.2, decimal c.data.length, c.data⟩

inductive Event
  | datagram (mode : AtSckReportMode) (nod : RcvDataNod)
  | read (mode : AtSckReportMode) (preadLen : ℕ)

inductive Outcome
  | fate (f : Fate)
  | answer (rsp : Option (List UInt8))

section
variable (build : Build) (sktIndex : ℕ)

def step : Event → SockContext → Outcome × SockContext
  | .datagram mode nod, s => let r := atSockRecv build mode nod s; (.fate r.1, r.2)
  | .read mode preadLen, s =>
    let r := readDataFromSocketBuffer build mode sktIndex preadLen s
    (.answer r.1, r.2)

/-- The events with their outcomes, and the context behind them. -/
def run : List Event → SockContext → List (Event × Outcome) × SockContext
  | [], s => ([], s)
  | e :: events, s =>
    let r := step build sktIndex e s
    let rest := run events r.2
    ((e, r.1) :: rest.1, rest.2)

end

def accepted (log : List (Event × Outcome)) : List RcvDataNod :=
  log.filterMap fun
    | (.datagram _ nod, .fate .accepted) => some nod
    | _ => none

def answers (log : List (Event × Outcome)) : List (List UInt8) :=
  log.filterMap fun
    | (_, .answer rsp) => rsp
    | _ => none

/-- The bytes that an answer gives, each with the remote address and port. -/
def answered (rsp : List UInt8) : List (UInt8 × List UInt8 × List UInt8) :=
  ((parseReply rsp).map fun r => r.data.map fun b => (b, r.ip, r.port)).getD []

/-- The source address that `recvfrom` gives is of the family of the socket. -/
def FromFamily (afType : ℕ) : Event → Prop
  | .datagram _ nod => nod.sockaddrInfo.sinFamily = if afType = 1 then .inet6 else .inet
  | .read _ _ => True

def total (s : SockContext) : ℕ := (s.dataList.map RcvDataNod.len).sum

theorem digitValue_tab (b : UInt8) :
    ((digitValue (tab.getD (b >>> 4).toNat 0)).bind fun high =>
      (digitValue (tab.getD (b &&& 0x0f).toNat 0)).map fun low => high <<< 4 ||| low) = some b := by
  have hall : ∀ n : Fin 256, ((digitValue (tab.getD (UInt8.ofNat n >>> 4).toNat 0)).bind fun high =>
      (digitValue (tab.getD (UInt8.ofNat n &&& 0x0f).toNat 0)).map fun low => high <<< 4 ||| low) =
      some (UInt8.ofNat n) := by decide +kernel
  have hb := hall ⟨b.toNat, b.toNat_lt⟩
  rw [UInt8.ofNat_toNat] at hb
  exact hb

theorem hexstr2bytes_bytes2hexstr (data : List UInt8) : hexstr2bytes (bytes2hexstr data) = some data := by
  induction data with
  | nil => rfl
  | cons b data ih =>
    have hcons : bytes2hexstr (b :: data) =
        tab.getD (b >>> 4).toNat 0 :: tab.getD (b &&& 0x0f).toNat 0 :: bytes2hexstr data := rfl
    obtain ⟨high, hhigh, hrest⟩ := Option.bind_eq_some_iff.mp (digitValue_tab b)
    obtain ⟨low, hlow, hjoin⟩ := Option.map_eq_some_iff.mp hrest
    rw [hcons, hexstr2bytes, hhigh, hlow, ih, ← hjoin]
    rfl

theorem comma_not_mem_hex (data : List UInt8) : comma ∉ bytes2hexstr data := by
  have hdigit : ∀ n : ℕ, tab.getD n 0 ≠ comma := by
    intro n
    rcases Nat.lt_or_ge n 16 with hlt | hge
    · have hall : ∀ k : Fin 16, tab.getD k.val 0 ≠ comma := by decide
      exact hall ⟨n, hlt⟩
    · rw [List.getD_eq_default _ _ hge]
      decide
  intro h
  obtain ⟨b, -, hb⟩ := List.mem_flatMap.mp h
  rcases List.mem_cons.mp hb with hb | hb
  · exact hdigit _ hb.symm
  · exact hdigit _ (List.mem_singleton.mp hb).symm

theorem comma_not_mem_decimal (n : ℕ) : comma ∉ decimal n := fun h => by
  have := isDigit_of_mem_decimal n comma h
  exact absurd this (by decide)

theorem comma_not_mem_ntop (addr : UInt8 × UInt8 × UInt8 × UInt8) : comma ∉ inetNtop4 addr := by
  rw [inetNtop4]
  simp only [List.mem_append, List.mem_cons, comma_not_mem_decimal, or_false, false_or]
  decide

/-- An answer gives back what it was made from, whatever stands behind the data. -/
theorem parseReply_nsorf (build : Build) (sktIndex : ℕ) {ip : List UInt8} (hip : comma ∉ ip) (port : UInt16)
    (data tail : List UInt8) : parseReply (nsorf build sktIndex ip port data ++ comma :: tail) =
      some ⟨ip, decimal port.toNat, decimal data.length, data⟩ := by
  have hhead : comma ∉ (if build.verQuectel then [13, 10] else [13, 10, 43, 78, 83, 79, 82, 70, 58]) ++ decimal sktIndex := by
    rw [List.mem_append]
    rintro (h | h)
    · split at h
      · exact absurd h (by decide)
      · exact absurd h (by decide)
    · exact comma_not_mem_decimal _ h
  have hsplit : nsorf build sktIndex ip port data ++ comma :: tail =
      ((if build.verQuectel then [13, 10] else [13, 10, 43, 78, 83, 79, 82, 70, 58]) ++ decimal sktIndex) ++
        comma :: (ip ++ comma :: (decimal port.toNat ++ comma :: (decimal data.length ++
          comma :: (bytes2hexstr data ++ comma :: tail)))) := by
    simp [nsorf]
  rw [hsplit, parseReply, strchr_append hhead, Option.bind_some, strchr_append hip, Option.bind_some,
    strchr_append (comma_not_mem_decimal _), Option.bind_some, strchr_append (comma_not_mem_decimal _), Option.bind_some,
    strchr_append (comma_not_mem_hex _), Option.bind_some, hexstr2bytes_bytes2hexstr]
  rfl

/-! ## One event -/

section

variable {build : Build} {sktIndex : ℕ} {s : SockContext}

/-- A read answers with the data of the first datagram, all of it or its first part. -/
theorem read_cons {temp : RcvDataNod} {next : List RcvDataNod} (hlist : s.dataList = temp :: next)
    (mode : AtSckReportMode) (preadLen : ℕ) :
    ∃ tail s', readDataFromSocketBuffer build mode sktIndex preadLen s =
        (some (nsorf build sktIndex (remoteIp build s temp.sockaddrInfo) temp.sockaddrInfo.sinPort
          (if temp.len ≤ preadLen then temp.data else temp.data.take preadLen) ++ comma :: tail), s') ∧
      s'.afType = s.afType ∧ s'.dataList =
        if temp.len ≤ preadLen then next else { temp with data := temp.data.drop preadLen } :: next := by
  rw [readDataFromSocketBuffer, hlist]
  by_cases hle : temp.len ≤ preadLen
  · simp only [if_pos hle]
    cases next with
    | nil => exact ⟨_, _, rfl, rfl, rfl⟩
    | cons head rest =>
      by_cases hmode : mode = .bufferWithHint
      · simp only [if_pos hmode, List.append_assoc]
        exact ⟨_, _, rfl, rfl, rfl⟩
      · simp only [if_neg hmode]
        exact ⟨_, _, rfl, rfl, rfl⟩
  · simp only [if_neg hle]
    exact ⟨_, _, rfl, rfl, rfl⟩

theorem bytes2hexstr_length (data : List UInt8) : (bytes2hexstr data).length = 2 * data.length := by
  induction data with
  | nil => rfl
  | cons b data ih =>
    rw [bytes2hexstr] at ih
    rw [bytes2hexstr, List.flatMap_cons, List.length_append, ih, List.length_cons]
    simp only [List.length_cons, List.length_nil]
    omega

theorem nsorf_length_le (hindex : sktIndex < 10) (ip : List UInt8) (port : UInt16) {data : List UInt8}
    (hdata : data.length < 10 ^ 5) : (nsorf build sktIndex ip port data).length ≤ 24 + ip.length + 2 * data.length := by
  have hskt : (decimal sktIndex).length ≤ 1 := decimal_length_le 0 hindex
  have hport : (decimal port.toNat).length ≤ 5 := decimal_length_le 4 (Nat.lt_trans port.toNat_lt (by decide))
  have hlen : (decimal data.length).length ≤ 5 := decimal_length_le 4 hdata
  have hname :
      (if build.verQuectel then [13, 10] else [13, 10, 43, 78, 83, 79, 82, 70, 58] : List UInt8).length ≤ 9 := by
    split <;> decide
  simp only [nsorf, List.length_append, List.length_cons, bytes2hexstr_length]
  omega

theorem nsorfEnd_length_le {remaining : ℕ} (h : remaining < 10 ^ 5) : (nsorfEnd remaining).length ≤ 14 := by
  have hlen : (decimal remaining).length ≤ 5 := decimal_length_le 4 h
  simp only [nsorfEnd, List.length_append, List.length_cons, List.length_nil]
  omega

theorem nsonmi_length_le (hindex : sktIndex < 10) {len : ℕ} (h : len < 10 ^ 5) : (nsonmi sktIndex len).length ≤ 19 := by
  have hskt : (decimal sktIndex).length ≤ 1 := decimal_length_le 0 hindex
  have hlen : (decimal len).length ≤ 5 := decimal_length_le 4 h
  simp only [nsonmi, List.length_append, List.length_cons, List.length_nil]
  omega

theorem remaining_lt (h : ∀ nod ∈ s.dataList, nod.len < 10 ^ 5) : getRemainingSocketBufferSize s < 10 ^ 5 := by
  rw [getRemainingSocketBufferSize]
  split
  · decide
  · next temp next hlist => exact h temp (hlist ▸ List.mem_cons_self)

theorem read_length_le (hindex : sktIndex < 10) {temp : RcvDataNod} {next : List RcvDataNod}
    (hlist : s.dataList = temp :: next) (hlens : ∀ nod ∈ s.dataList, nod.len < 10 ^ 5) {mode : AtSckReportMode}
    {preadLen : ℕ} {rsp : List UInt8}
    (hrsp : (readDataFromSocketBuffer build mode sktIndex preadLen s).1 = some rsp) :
    rsp.length ≤ 57 + (remoteIp build s temp.sockaddrInfo).length + 2 * temp.len := by
  have htemp : temp.data.length < 10 ^ 5 := hlens temp (hlist ▸ List.mem_cons_self)
  have hnext : ∀ nod ∈ next, nod.len < 10 ^ 5 := fun nod hmem => hlens nod (hlist ▸ List.mem_cons_of_mem temp hmem)
  have hdata : temp.data.length = temp.len := rfl
  rw [readDataFromSocketBuffer, hlist] at hrsp
  by_cases hle : temp.len ≤ preadLen
  · have hbody := @nsorf_length_le build sktIndex hindex (remoteIp build s temp.sockaddrInfo)
      temp.sockaddrInfo.sinPort _ htemp
    have hend := nsorfEnd_length_le (@remaining_lt { s with dataList := next } hnext)
    simp only [if_pos hle] at hrsp
    cases next with
    | nil =>
      obtain rfl := Option.some.inj hrsp
      rw [List.length_append]
      omega
    | cons head rest =>
      have hhint := @nsonmi_length_le sktIndex hindex head.len (hnext head List.mem_cons_self)
      obtain rfl := Option.some.inj hrsp
      split
      · rw [List.length_append, List.length_append]
        omega
      · rw [List.length_append]
        omega
  · have htaken : (temp.data.take preadLen).length ≤ temp.len := List.length_take_le' _ _
    have hbody := @nsorf_length_le build sktIndex hindex (remoteIp build s temp.sockaddrInfo) temp.sockaddrInfo.sinPort
      (temp.data.take preadLen) (Nat.lt_of_le_of_lt htaken htemp)
    have hrest :
        getRemainingSocketBufferSize { s with dataList := { temp with data := temp.data.drop preadLen } :: next } <
          10 ^ 5 := by
      refine Nat.lt_of_le_of_lt ?_ htemp
      exact (List.length_drop ..).trans_le (Nat.sub_le _ _)
    have hend := nsorfEnd_length_le hrest
    simp only [if_neg hle] at hrsp
    obtain rfl := Option.some.inj hrsp
    rw [List.length_append]
    omega

/-- A read is a pop of the queue, and its answer gives what was popped. -/
theorem read_spec (hv4 : s.afType ≠ 1) (mode : AtSckReportMode) (preadLen : ℕ) :
    (s.dataList = [] ∧ readDataFromSocketBuffer build mode sktIndex preadLen s = (none, s)) ∨
      ∃ rsp c s', readDataFromSocketBuffer build mode sktIndex preadLen s = (some rsp, s') ∧
        pop preadLen (s.dataList.map chunkOf) = some (c, s'.dataList.map chunkOf) ∧
        parseReply rsp = some (replyOf c) ∧ s'.afType = s.afType ∧ s'.dataList.length ≤ s.dataList.length ∧
        total s' ≤ total s := by
  cases hlist : s.dataList with
  | nil =>
    refine .inl ⟨rfl, ?_⟩
    rw [readDataFromSocketBuffer, hlist]
  | cons temp next =>
    right
    obtain ⟨tail, s', hread, hfamily, hdata⟩ := @read_cons build sktIndex s temp next hlist mode preadLen
    have hip : remoteIp build s temp.sockaddrInfo = inetNtop4 temp.sockaddrInfo.sinAddr := if_neg hv4
    have hparse : ∀ data : List UInt8, parseReply (nsorf build sktIndex (remoteIp build s temp.sockaddrInfo)
        temp.sockaddrInfo.sinPort data ++ comma :: tail) = some (replyOf ⟨data, (chunkOf temp).tag⟩) := fun data => by
      rw [hip]
      exact parseReply_nsorf build sktIndex (comma_not_mem_ntop _) _ _ _
    refine ⟨_, _, s', hread, ?_, hparse _, hfamily, ?_, ?_⟩
    · rw [hdata, List.map_cons, pop]
      by_cases hle : temp.len ≤ preadLen
      · rw [if_pos hle, if_pos hle]
        exact if_pos hle
      · rw [if_neg hle, if_neg hle]
        exact if_neg hle
    · rw [hdata]
      split
      · exact Nat.le_succ _
      · exact Nat.le_refl _
    · rw [total, total, hdata, hlist]
      split
      · exact Nat.le_add_left _ _
      · rw [List.map_cons, List.sum_cons, List.map_cons, List.sum_cons]
        apply Nat.add_le_add_right
        rw [RcvDataNod.len, RcvDataNod.len, List.length_drop]
        exact Nat.sub_le _ _

theorem add_spec (nod : RcvDataNod) (s : SockContext) :
    ((addNewRcvDataNode nod s).1 = true ∧ (addNewRcvDataNode nod s).2.dataList = s.dataList ++ [nod] ∧
        (addNewRcvDataNode nod s).2.afType = s.afType ∧ (s.dataList = [] ∨ total s + nod.len < sockRcvBufMax)) ∨
      ((addNewRcvDataNode nod s).1 = false ∧ (addNewRcvDataNode nod s).2 = s) := by
  rw [addNewRcvDataNode, total]
  cases hlist : s.dataList with
  | nil => exact .inl ⟨rfl, rfl, rfl, .inl rfl⟩
  | cons temp rest =>
    simp only []
    by_cases hroom : ((temp :: rest).map RcvDataNod.len).sum + nod.len < sockRcvBufMax
    · rw [if_pos hroom]
      exact .inl ⟨rfl, rfl, rfl, .inr hroom⟩
    · rw [if_neg hroom]
      exact .inr ⟨rfl, rfl⟩

/-- A datagram is accepted behind the others, or nothing changes. -/
theorem recv_spec (mode : AtSckReportMode) (nod : RcvDataNod) :
    ((atSockRecv build mode nod s).1 = .accepted ∧ nod.sockaddrInfo.sinFamily = .inet ∧
        (atSockRecv build mode nod s).2.dataList = s.dataList ++ [nod] ∧ (atSockRecv build mode nod s).2.afType = s.afType ∧
        (s.dataList = [] ∨ total s + nod.len < sockRcvBufMax)) ∨
      ((atSockRecv build mode nod s).1 ≠ .accepted ∧ (atSockRecv build mode nod s).2 = s) := by
  rw [atSockRecv]
  by_cases hfamily : nod.sockaddrInfo.sinFamily ≠ .inet
  · rw [if_pos hfamily]
    exact .inr ⟨nofun, rfl⟩
  rw [if_neg hfamily]
  by_cases hctl : s.recvCtl = 0
  · rw [if_pos hctl]
    exact .inr ⟨nofun, rfl⟩
  rw [if_neg hctl]
  by_cases hremote : build.xyRemoteAtReq nod.data
  · rw [if_pos hremote]
    exact .inr ⟨nofun, rfl⟩
  rw [if_neg hremote]
  by_cases hmode : mode = .hintWithRemoteInfo ∨ mode = .hintNoRemoteInfo
  · rw [if_pos hmode]
    exact .inr ⟨nofun, rfl⟩
  rw [if_neg hmode]
  rcases add_spec nod s with ⟨hok, hdata, htype, hroom⟩ | ⟨hfull, hsame⟩
  · simp only [if_pos hok]
    refine .inl ⟨trivial, not_not.mp hfamily, ?_, ?_, hroom⟩
    · split
      · exact hdata
      · exact hdata
    · split
      · exact htype
      · exact htype
  · simp only [hfull, if_neg Bool.false_ne_true]
    exact .inr ⟨nofun, hsame⟩

end

/-! ## Runs -/

theorem run_append (build : Build) (sktIndex : ℕ) (events events' : List Event) (s : SockContext) :
    run build sktIndex (events ++ events') s =
      ((run build sktIndex events s).1 ++ (run build sktIndex events' (run build sktIndex events s).2).1,
        (run build sktIndex events' (run build sktIndex events s).2).2) := by
  induction events generalizing s with
  | nil => rfl
  | cons e events ih =>
    rw [List.cons_append, run, ih, run]
    rfl

/-- What holds between the events so far and the context. -/
structure Inv (afType : ℕ) (log : List (Event × Outcome)) (s : SockContext) : Prop where
  family : s.afType = afType
  v6 : afType = 1 → s.dataList = []
  parts : ∃ taken, (answers log).map parseReply = taken.map (some ∘ replyOf) ∧
    Cuts taken ((accepted log).map chunkOf) (s.dataList.map chunkOf)
  atMost : ∀ mode preadLen rsp, (Event.read mode preadLen, Outcome.answer (some rsp)) ∈ log →
    ∃ r, parseReply rsp = some r ∧ r.data.length ≤ preadLen
  bounded : total s < sockRcvBufMax ∨ s.dataList.length ≤ 1

variable {build : Build} {sktIndex : ℕ}

/-- An event that leaves the context and the two lists. -/
theorem Inv.same {afType : ℕ} {log : List (Event × Outcome)} {s : SockContext} (h : Inv afType log s) {e : Event}
    {o : Outcome} (haccepted : accepted (log ++ [(e, o)]) = accepted log) (hanswers : answers (log ++ [(e, o)]) = answers log)
    (hread : ∀ rsp, o ≠ .answer (some rsp)) : Inv afType (log ++ [(e, o)]) s := by
  refine ⟨h.family, h.v6, by rw [haccepted, hanswers]; exact h.parts, fun mode preadLen rsp hmem => ?_, h.bounded⟩
  rcases List.mem_append.mp hmem with hmem | hmem
  · exact h.atMost mode preadLen rsp hmem
  · cases List.mem_singleton.mp hmem
    exact absurd rfl (hread rsp)

theorem inv_step {afType : ℕ} {log : List (Event × Outcome)} {s : SockContext} (h : Inv afType log s) {e : Event}
    (he : FromFamily afType e) :
    Inv afType (log ++ [(e, (step build sktIndex e s).1)]) (step build sktIndex e s).2 := by
  cases e with
  | datagram mode nod =>
    rcases @recv_spec build s mode nod with ⟨hfate, hinet, hdata, htype, hroom⟩ | ⟨hfate, hsame⟩
    · have hv4 : afType ≠ 1 := fun hv6 => by
        have hinet6 : nod.sockaddrInfo.sinFamily = .inet6 := he.trans (if_pos hv6)
        rw [hinet] at hinet6
        cases hinet6
      obtain ⟨taken, hanswers, hcuts⟩ := h.parts
      change Inv afType (log ++ [(_, .fate (atSockRecv build mode nod s).1)]) (atSockRecv build mode nod s).2
      rw [hfate]
      have haccepted : accepted (log ++ [(.datagram mode nod, .fate .accepted)]) = accepted log ++ [nod] :=
        List.filterMap_append
      have hanswers' : answers (log ++ [(.datagram mode nod, .fate .accepted)]) = answers log :=
        List.filterMap_append.trans (List.append_nil _)
      refine ⟨htype.trans h.family, fun hv6 => absurd hv6 hv4, ⟨taken, hanswers' ▸ hanswers, ?_⟩,
        fun mode' preadLen rsp hmem => ?_, ?_⟩
      · rw [haccepted, hdata, List.map_append, List.map_append]
        exact hcuts.push (chunkOf nod)
      · rcases List.mem_append.mp hmem with hmem | hmem
        · exact h.atMost mode' preadLen rsp hmem
        · cases List.mem_singleton.mp hmem
      · rw [total, hdata, List.map_append, List.sum_append]
        rcases hroom with hnil | hroom
        · right
          rw [hnil]
          exact Nat.le_refl 1
        · left
          simpa [total] using hroom
    · change Inv afType (log ++ [(_, .fate (atSockRecv build mode nod s).1)]) (atSockRecv build mode nod s).2
      rw [hsame]
      apply h.same
      · rw [accepted, List.filterMap_append]
        refine (congrArg (_ ++ ·) ?_).trans (List.append_nil _)
        cases hf : (atSockRecv build mode nod s).1 with
        | accepted => exact absurd hf hfate
        | dropped => rfl
        | reported => rfl
        | rejected => rfl
      · exact List.filterMap_append.trans (List.append_nil _)
      · exact nofun
  | read mode preadLen =>
    change Inv afType (log ++ [(_, .answer (readDataFromSocketBuffer build mode sktIndex preadLen s).1)])
      (readDataFromSocketBuffer build mode sktIndex preadLen s).2
    have hcase : (s.dataList = [] ∧ readDataFromSocketBuffer build mode sktIndex preadLen s = (none, s)) ∨ s.afType ≠ 1 := by
      by_cases hv6 : afType = 1
      · refine .inl ⟨h.v6 hv6, ?_⟩
        rw [readDataFromSocketBuffer, h.v6 hv6]
      · rw [h.family]
        exact .inr hv6
    have hnone : readDataFromSocketBuffer build mode sktIndex preadLen s = (none, s) →
        Inv afType (log ++ [(.read mode preadLen, .answer (readDataFromSocketBuffer build mode sktIndex preadLen s).1)])
          (readDataFromSocketBuffer build mode sktIndex preadLen s).2 := by
      intro hread
      rw [hread]
      apply h.same
      · exact List.filterMap_append.trans (List.append_nil _)
      · exact List.filterMap_append.trans (List.append_nil _)
      · exact nofun
    rcases hcase with ⟨-, hread⟩ | hv4
    · exact hnone hread
    · rcases @read_spec build sktIndex s hv4 mode preadLen with ⟨-, hread⟩ | ⟨rsp, c, s', hread, hpop, hparse, htype, hle, htotal⟩
      · exact hnone hread
      · obtain ⟨taken, hanswers, hcuts⟩ := h.parts
        rw [hread]
        have haccepted : accepted (log ++ [(.read mode preadLen, .answer (some rsp))]) = accepted log :=
          List.filterMap_append.trans (List.append_nil _)
        have hanswers' : answers (log ++ [(.read mode preadLen, .answer (some rsp))]) = answers log ++ [rsp] :=
          List.filterMap_append
        refine ⟨htype.trans h.family, fun hv6 => absurd (h.family.trans hv6) hv4, ⟨taken ++ [c], ?_, ?_⟩,
          fun mode' preadLen' rsp' hmem => ?_, ?_⟩
        · rw [hanswers', List.map_append, List.map_append, hanswers]
          exact congrArg (_ ++ [·]) hparse
        · rw [haccepted]
          exact hcuts.pop hpop
        · rcases List.mem_append.mp hmem with hmem | hmem
          · exact h.atMost mode' preadLen' rsp' hmem
          · cases List.mem_singleton.mp hmem
            exact ⟨replyOf c, hparse, pop_length hpop⟩
        · rcases h.bounded with hbound | hbound
          · exact .inl (Nat.lt_of_le_of_lt htotal hbound)
          · exact .inr (hle.trans hbound)

theorem inv_run {s : SockContext} (hempty : s.dataList = []) (events : List Event)
    (hevents : ∀ e ∈ events, FromFamily s.afType e) :
    Inv s.afType (run build sktIndex events s).1 (run build sktIndex events s).2 := by
  induction events using List.reverseRecOn with
  | nil =>
    refine ⟨rfl, fun _ => hempty, ⟨[], rfl, ?_⟩, fun _ _ _ hmem => (nomatch hmem), .inr ?_⟩
    · change Cuts [] [] (s.dataList.map chunkOf)
      rw [hempty]
      exact .rest []
    · change s.dataList.length ≤ 1
      rw [hempty]
      exact Nat.zero_le _
  | append_singleton events e ih =>
    rw [run_append]
    exact inv_step (ih fun e he => hevents e (List.mem_append_left _ he)) (hevents e (List.mem_append_right _ List.mem_cons_self))

/-- The length of a datagram has 16 bits. -/
def Event.Short : Event → Prop
  | .datagram _ nod => nod.len < 2 ^ 16
  | .read _ _ => True

theorem short_step {s : SockContext} (hs : ∀ nod ∈ s.dataList, nod.len < 2 ^ 16) {e : Event} (he : e.Short) :
    ∀ nod ∈ (step build sktIndex e s).2.dataList, nod.len < 2 ^ 16 := by
  cases e with
  | datagram mode nod =>
    rcases @recv_spec build s mode nod with ⟨-, -, hdata, -⟩ | ⟨-, hsame⟩
    · change ∀ nod' ∈ (atSockRecv build mode nod s).2.dataList, nod'.len < 2 ^ 16
      rw [hdata]
      intro nod' hmem
      rcases List.mem_append.mp hmem with hmem | hmem
      · exact hs nod' hmem
      · exact List.mem_singleton.mp hmem ▸ he
    · change ∀ nod' ∈ (atSockRecv build mode nod s).2.dataList, nod'.len < 2 ^ 16
      rwa [hsame]
  | read mode preadLen =>
    change ∀ nod ∈ (readDataFromSocketBuffer build mode sktIndex preadLen s).2.dataList, nod.len < 2 ^ 16
    cases hlist : s.dataList with
    | nil =>
      rw [readDataFromSocketBuffer, hlist]
      exact hs
    | cons temp next =>
      obtain ⟨tail, s', hread, -, hdata⟩ := @read_cons build sktIndex s temp next hlist mode preadLen
      have htemp := hs temp (hlist ▸ List.mem_cons_self)
      have hnext : ∀ nod ∈ next, nod.len < 2 ^ 16 := fun nod hmem => hs nod (hlist ▸ List.mem_cons_of_mem temp hmem)
      rw [hread, hdata]
      split
      · exact hnext
      · refine List.forall_mem_cons.mpr ⟨?_, hnext⟩
        exact Nat.lt_of_le_of_lt ((List.length_drop ..).trans_le (Nat.sub_le _ _)) htemp

theorem short_run {s : SockContext} (hempty : s.dataList = []) {events : List Event} (hevents : ∀ e ∈ events, e.Short) :
    ∀ nod ∈ (run build sktIndex events s).2.dataList, nod.len < 2 ^ 16 := by
  induction events using List.reverseRecOn with
  | nil =>
    rw [run, hempty]
    exact fun nod hmem => absurd hmem List.not_mem_nil
  | append_singleton events e ih =>
    rw [run_append]
    exact short_step (ih fun e he => hevents e (List.mem_append_left _ he))
      (hevents e (List.mem_append_right _ List.mem_cons_self))

theorem inetNtop4_length_le (addr : UInt8 × UInt8 × UInt8 × UInt8) : (inetNtop4 addr).length ≤ 15 := by
  have hbyte : ∀ b : UInt8, (decimal b.toNat).length ≤ 3 := fun b =>
    decimal_length_le 2 (Nat.lt_trans b.toNat_lt (by decide))
  have h₁ := hbyte addr.1
  have h₂ := hbyte addr.2.1
  have h₃ := hbyte addr.2.2.1
  have h₄ := hbyte addr.2.2.2
  simp only [inetNtop4, List.length_append, List.length_cons]
  omega

/-- In every run an answer and its terminator fit into what is allocated for it. -/
theorem answer_fits {s : SockContext} (hempty : s.dataList = []) (hindex : sktIndex < 10) {events : List Event}
    (hevents : ∀ e ∈ events, FromFamily s.afType e ∧ e.Short) {mode : AtSckReportMode} {preadLen : ℕ} {rsp : List UInt8}
    (hrsp : (readDataFromSocketBuffer build mode sktIndex preadLen (run build sktIndex events s).2).1 = some rsp) :
    ∃ temp next, (run build sktIndex events s).2.dataList = temp :: next ∧ rsp.length + 1 ≤ rspSize temp := by
  have hinv := @inv_run build sktIndex s hempty events fun e he => (hevents e he).1
  have hshort := @short_run build sktIndex s hempty events fun e he => (hevents e he).2
  cases hlist : (run build sktIndex events s).2.dataList with
  | nil =>
    rw [readDataFromSocketBuffer, hlist] at hrsp
    cases hrsp
  | cons temp next =>
    refine ⟨temp, next, rfl, ?_⟩
    have hv4 : (run build sktIndex events s).2.afType ≠ 1 := fun hv6 =>
      absurd (hlist.symm.trans (hinv.v6 (hinv.family.symm.trans hv6))) (List.cons_ne_nil temp next)
    have hip : (remoteIp build (run build sktIndex events s).2 temp.sockaddrInfo).length ≤ 15 := by
      rw [remoteIp, if_neg hv4]
      exact inetNtop4_length_le _
    have hle := read_length_le hindex hlist (fun nod hmem => Nat.lt_trans (hshort nod hmem) (by decide)) hrsp
    rw [rspSize]
    omega

end NbiotXY1100.AtSocketFifo
