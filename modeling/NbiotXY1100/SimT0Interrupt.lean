import NbiotXY1100.SimT0Command

/-! # The interrupt-driven receive path of the SIM driver

With `sim_csp_int_en = 1` the bytes of a long response first come to `L2_int0_csp1`, one activation
for a group of bytes, and `T0_Cmd_Handler` waits for its hand-over without a time-out. -/
namespace NbiotXY1100.SimT0Interrupt
open SimCard SimT0 SimT0Exchange SimT0Command

def simCspFifoDeep : ℕ := 128

/-- One round of the loop in `L2_int0_csp1`; `true` is `rcv_in_interrupt = 0`. -/
def interruptByte (apdu : TCommandApdu) (c : UInt8) (s : T0State) : Bool × T0State :=
  if s.t0State = .null ∨ s.t0State = .none then
    match procedureByte apdu.ins c with
    | some t => (decide (t = .sw1), takeProcedure t c s)
    | none => (true, s.setT0 .failure)
  else
    let next := s.receive c
    let next := if s.t0State = .complementIns then next.setT0 .none else next
    (decide (apdu.le + 2 < next.simRxNum + simCspFifoDeep), next)

/-- One activation, with what it leaves in the FIFO. -/
def l2Int0Csp1 (apdu : TCommandApdu) (s : T0State) : List UInt8 → Bool × T0State × List UInt8
  | [] => (false, s, [])
  | c :: fifo =>
    let (handed, next) := interruptByte apdu c s
    if handed then (true, next, fifo) else l2Int0Csp1 apdu next fifo

/-- The loop `if (rcv_in_interrupt) continue;`, which does not end if the activations end before
the hand-over. -/
def waitInterrupt (apdu : TCommandApdu) (s : T0State) : List (List UInt8) → Option (T0State × List UInt8)
  | [] => none
  | fifo :: later =>
    match l2Int0Csp1 apdu s fifo with
    | (true, next, rest) => some (next, rest ++ later.flatten)
    | (false, next, _) => waitInterrupt apdu next later

/-- `T0_Cmd_Handler` with `sim_csp_int_en = 1`. After the hand-over the `switch` comes first. -/
def t0CmdHandlerInterrupt (txbuff : List UInt8) (len : ℕ) (rxbuff : List UInt8) (early : List ℕ)
    (groups : List (List UInt8)) (driver : SimDriver) : Option T0Result :=
  let apdu := parseCommand txbuff len
  if InT0Procedure driver ∧ simCspFifoDeep - 2 < apdu.le then
    (waitInterrupt apdu (startT0 apdu rxbuff early driver) groups).map
      fun (s, card) => continueLoop apdu len (switchT0 apdu s card)
  else some (t0CmdHandler txbuff len rxbuff early groups.flatten driver)

section
variable {apdu : TCommandApdu} {len : ℕ}

theorem l2Int0Csp1_append (s : T0State) (fifo ext : List UInt8) :
    l2Int0Csp1 apdu s (fifo ++ ext) =
      if (l2Int0Csp1 apdu s fifo).1 = true then
        (true, (l2Int0Csp1 apdu s fifo).2.1, (l2Int0Csp1 apdu s fifo).2.2 ++ ext)
      else l2Int0Csp1 apdu (l2Int0Csp1 apdu s fifo).2.1 ext := by
  induction fifo generalizing s with
  | nil => rfl
  | cons c fifo ih =>
    simp only [List.cons_append, l2Int0Csp1]
    split
    · rfl
    · exact ih _

/-- The grouping into activations has no effect. -/
theorem waitInterrupt_flatten (s : T0State) (groups : List (List UInt8)) :
    waitInterrupt apdu s groups =
      if (l2Int0Csp1 apdu s groups.flatten).1 = true then some (l2Int0Csp1 apdu s groups.flatten).2 else none := by
  induction groups generalizing s with
  | nil => rfl
  | cons fifo later ih =>
    rw [waitInterrupt, List.flatten_cons, l2Int0Csp1_append]
    split
    · next hstep => simp [hstep]
    · next hstep => simp [hstep, ih]

/-- How many bytes come before the hand-over, when `k` data bytes are still needed for it. -/
def handOverLength : List Ack → ℕ → ℕ
  | [], _ => 1
  | .null :: acks, k => 1 + handOverLength acks k
  | .all :: _, k => 1 + k
  | .one :: acks, k => if k ≤ 1 then 2 else 2 + handOverLength acks (k - 1)

/-- What holds of the interrupt path on the bytes `cut`: a hand-over comes with the `n`-th byte,
and after it the handler ends with `r`. -/
def Agrees (apdu : TCommandApdu) (len : ℕ) (s : T0State) (cut : List UInt8) (n : ℕ) (r : T0Result) : Prop :=
  if (l2Int0Csp1 apdu s cut).1 = true then
    n ≤ cut.length ∧
      continueLoop apdu len (switchT0 apdu (l2Int0Csp1 apdu s cut).2.1 (l2Int0Csp1 apdu s cut).2.2) = r
  else cut.length < n

theorem agrees_nil (s : T0State) {n : ℕ} (hn : 0 < n) (r : T0Result) : Agrees apdu len s [] n r := by
  simpa [Agrees, l2Int0Csp1] using hn

theorem agrees_stop {s next : T0State} {c : UInt8} {cut : List UInt8} {n : ℕ} {r : T0Result}
    (hstop : interruptByte apdu c s = (true, next)) (hn : n ≤ 1)
    (hr : continueLoop apdu len (switchT0 apdu next cut) = r) : Agrees apdu len s (c :: cut) n r := by
  simp only [Agrees, l2Int0Csp1, hstop, if_true, List.length_cons]
  exact ⟨by omega, hr⟩

theorem agrees_step {s next : T0State} {c : UInt8} {cut : List UInt8} {n : ℕ} {r : T0Result}
    (hgo : interruptByte apdu c s = (false, next)) (h : Agrees apdu len next cut n r) :
    Agrees apdu len s (c :: cut) (1 + n) r := by
  simp only [Agrees, l2Int0Csp1, hgo, Bool.false_eq_true, if_false, List.length_cons] at h ⊢
  split at h
  · next hhanded =>
    rw [if_pos hhanded]
    exact ⟨by omega, h.2⟩
  · next hhanded =>
    rw [if_neg hhanded]
    omega

/-- In the transfer of all bytes, with `k` more to come before the hand-over. -/
theorem agrees_all {s : T0State} {k : ℕ} (ht : s.t0State = .ins) (hk : 0 < k) (hrx : s.simRxNum + k + 125 = apdu.le)
    (cut : List UInt8) : Agrees apdu len s cut k (continueLoop apdu len (switchT0 apdu s cut)) := by
  induction cut generalizing s k with
  | nil => exact agrees_nil s hk _
  | cons c cut ih =>
    have hle : apdu.le ≠ 0 := by omega
    have hmore : s.simRxNum < apdu.le := by omega
    have ht' : (s.receive c).t0State = .ins := ht
    have hblock : switchT0 apdu s (c :: cut) = switchT0 apdu (s.receive c) cut := by
      simp only [switchT0, ht, ht', if_pos hle, receiveBlock, if_pos hmore]
    have hbyte : interruptByte apdu c s = (decide (k = 1), s.receive c) := by
      have hthreshold : (apdu.le + 2 < (s.receive c).simRxNum + simCspFifoDeep) ↔ k = 1 := by
        simp only [T0State.receive, simCspFifoDeep]
        omega
      simp [interruptByte, ht, hthreshold]
    rw [hblock]
    by_cases hlast : k = 1
    · rw [decide_eq_true hlast] at hbyte
      exact agrees_stop hbyte hlast.le rfl
    · rw [decide_eq_false hlast] at hbyte
      obtain ⟨k, rfl⟩ : ∃ j, k = 1 + j := ⟨k - 1, by omega⟩
      apply agrees_step hbyte
      apply ih ht' (by omega)
      simp only [T0State.receive]
      omega

theorem interruptByte_procedure {s : T0State} {c : UInt8} {t : T0CmdState}
    (ht : s.t0State = .null ∨ s.t0State = .none) (hc : procedureByte apdu.ins c = some t) :
    interruptByte apdu c s = (decide (t = .sw1), takeProcedure t c s) := by
  rw [interruptByte, if_pos ht, hc]

/-- The byte after the acknowledgement of one byte. -/
theorem interruptByte_one {s : T0State} {k : ℕ} (ht : s.t0State = .complementIns) (hk : 0 < k)
    (hrx : s.simRxNum + k + 125 = apdu.le) (c : UInt8) :
    interruptByte apdu c s = (decide (k = 1), (s.receive c).setT0 .none) := by
  have hthreshold : apdu.le + 2 < ((s.receive c).setT0 .none).simRxNum + simCspFifoDeep ↔ k = 1 := by
    simp only [T0State.setT0, T0State.receive, simCspFifoDeep]
    omega
  simp [interruptByte, ht, hthreshold]

/-- Between two procedure bytes, with `k` data bytes to come before the hand-over. -/
theorem agrees_conversation (hins : ValidIns apdu.ins) (acks : List Ack) {s : T0State} {p : List UInt8} {k : ℕ}
    {sw1 sw2 : UInt8} (hs : Status sw1) (ht : s.t0State = .null ∨ s.t0State = .none)
    (hp : s.simRxNum + p.length = apdu.le) (hk : 0 < k) (hrx : s.simRxNum + k + 125 = apdu.le) {cut : List UInt8}
    (hcut : cut <+: conversation apdu.ins acks p ++ [sw1, sw2]) :
    Agrees apdu len s cut (handOverLength acks k) (pollLoop apdu len s cut) := by
  have hle : apdu.le ≠ 0 := by omega
  induction acks generalizing s p k cut with
  | nil =>
    obtain rfl | ⟨rest, rfl, -⟩ := List.prefix_cons_iff.mp hcut
    · exact agrees_nil s Nat.one_pos _
    · have hc := procedureByte_status hins hs
      exact agrees_stop (interruptByte_procedure ht hc) (Nat.le_refl 1) (pollLoop_procedure hc).symm
  | cons ack acks ih =>
    cases ack with
    | null =>
      obtain rfl | ⟨rest, rfl, hrest⟩ := List.prefix_cons_iff.mp hcut
      · exact agrees_nil s (by simp only [handOverLength]; omega) _
      · apply agrees_step (interruptByte_procedure ht (procedureByte_null apdu.ins))
        rw [pollLoop_null, ← pollLoop_setT0 .null]
        exact ih (s := s.setT0 .null) (.inl rfl) hp hk hrx hrest
    | all =>
      obtain rfl | ⟨rest, rfl, -⟩ := List.prefix_cons_iff.mp hcut
      · exact agrees_nil s (by simp only [handOverLength]; omega) _
      · have hc := procedureByte_ins hins
        rw [pollLoop_procedure hc]
        exact agrees_step (interruptByte_procedure ht hc) (agrees_all (s := s.setT0 .ins) rfl hk hrx rest)
    | one =>
      obtain ⟨c, p, rfl⟩ : ∃ c q, p = c :: q := by
        cases p with
        | nil => simp only [List.length_nil] at hp; omega
        | cons c q => exact ⟨c, q, rfl⟩
      obtain ⟨n, hn, hlength⟩ : ∃ n, handOverLength (.one :: acks) k = 1 + (1 + n) ∧
          n = if k ≤ 1 then 0 else handOverLength acks (k - 1) := by
        refine ⟨_, ?_, rfl⟩
        simp only [handOverLength]
        split <;> omega
      rw [hn]
      obtain rfl | ⟨rest, rfl, hrest⟩ := List.prefix_cons_iff.mp hcut
      · exact agrees_nil s (by omega) _
      apply agrees_step (interruptByte_procedure ht (procedureByte_complement hins))
      obtain rfl | ⟨rest, rfl, hrest'⟩ := List.prefix_cons_iff.mp hrest
      · exact agrees_nil _ (by omega) _
      have hpoll : pollLoop apdu len s ((apdu.ins ^^^ 0xFF) :: c :: rest) =
          pollLoop apdu len ((s.receive c).setT0 .none) rest :=
        (pollLoop_readOne hins hle rest hp).trans (pollLoop_setT0 .none (s.receive c) rest).symm
      have hbyte := interruptByte_one (s := s.setT0 .complementIns) rfl hk hrx c
      rw [hpoll]
      by_cases hlast : k = 1
      · rw [decide_eq_true hlast] at hbyte
        exact agrees_stop hbyte (by simp [hlength, hlast]) rfl
      · rw [decide_eq_false hlast] at hbyte
        have hmore : ¬ k ≤ 1 := by omega
        rw [if_neg hmore] at hlength
        rw [hlength]
        apply agrees_step hbyte
        apply ih (p := p) (.inr rfl) _ _ _ hrest'
        · simp only [T0State.setT0, T0State.receive, List.length_cons] at hp ⊢
          omega
        · omega
        · simp only [T0State.setT0, T0State.receive]
          omega

end

section
variable {txbuff : List UInt8} {len : ℕ} {rxbuff : List UInt8} {driver : SimDriver}

/-- The card has sent its first status byte or `Le - 125` data bytes before it stops. -/
def HandsOver (txbuff : List UInt8) (len : ℕ) (response : Response (parseCommand txbuff len)) (cut : List UInt8) :
    Prop :=
  handOverLength response.acks ((parseCommand txbuff len).le - 125) ≤ cut.length

instance (txbuff : List UInt8) (len : ℕ) (response : Response (parseCommand txbuff len)) (cut : List UInt8) :
    Decidable (HandsOver txbuff len response cut) := inferInstanceAs (Decidable (_ ≤ _))

/-- The result of the interrupt path on an answer that may break off: the one of the polling path
after a hand-over, and none at all before. -/
theorem handlerInterrupt_eq (hcmd : Command txbuff len) (hproc : InT0Procedure driver)
    (hle : simCspFifoDeep - 2 < (parseCommand txbuff len).le) (response : Response (parseCommand txbuff len))
    {groups : List (List UInt8)} (hcut : groups.flatten <+: response.bytes) :
    t0CmdHandlerInterrupt txbuff len rxbuff [] groups driver =
      if HandsOver txbuff len response groups.flatten then
        some (t0CmdHandler txbuff len rxbuff [] groups.flatten driver)
      else none := by
  obtain ⟨acks, payload, sw1, sw2, hpayload, hs⟩ := response
  have hpos : 0 < (parseCommand txbuff len).le - 125 := by
    simp only [simCspFifoDeep] at hle
    omega
  have hrx : 0 + ((parseCommand txbuff len).le - 125) + 125 = (parseCommand txbuff len).le := by omega
  have h := @agrees_conversation (parseCommand txbuff len) len hcmd.ins acks
    (startT0 (parseCommand txbuff len) rxbuff [] driver) payload _ sw1 sw2 hs (.inr rfl)
    ((Nat.zero_add _).trans hpayload) hpos hrx _ hcut
  rw [handler_eq_pollLoop hproc, t0CmdHandlerInterrupt]
  simp only [if_pos (And.intro hproc hle), waitInterrupt_flatten]
  rw [Agrees] at h
  split at h
  · next hhanded =>
    rw [if_pos hhanded, Option.map_some, h.2]
    exact (if_pos h.1).symm
  · next hhanded =>
    rw [if_neg hhanded, Option.map_none]
    exact (if_neg (Nat.not_le.mpr h)).symm

/-- The interrupt path returns, with the status, the response and the length of the polling path,
and has not written behind the status bytes. -/
def SameAsPolled (txbuff : List UInt8) (len : ℕ) (rxbuff : List UInt8) (groups : List (List UInt8))
    (driver : SimDriver) : Prop :=
  ∃ r, t0CmdHandlerInterrupt txbuff len rxbuff [] groups driver = some r ∧
    r.result = (t0CmdHandler txbuff len rxbuff [] groups.flatten driver).result ∧
    r.state.rxbuff = (t0CmdHandler txbuff len rxbuff [] groups.flatten driver).state.rxbuff ∧
    r.len = (t0CmdHandler txbuff len rxbuff [] groups.flatten driver).len ∧
    r.state.overrun = false ∧
    r.state.rxbuff.drop ((parseCommand txbuff len).le + 2) = rxbuff.drop ((parseCommand txbuff len).le + 2)

theorem sameAsPolled_iff_handsOver (hcmd : Command txbuff len) (hproc : InT0Procedure driver)
    (hrx : (parseCommand txbuff len).le + 2 ≤ rxbuff.length)
    (hle : simCspFifoDeep - 2 < (parseCommand txbuff len).le) (response : Response (parseCommand txbuff len))
    {groups : List (List UInt8)} (hcut : groups.flatten <+: response.bytes) :
    SameAsPolled txbuff len rxbuff groups driver ↔ HandsOver txbuff len response groups.flatten := by
  have heq := @handlerInterrupt_eq txbuff len rxbuff driver hcmd hproc hle response groups hcut
  constructor
  · rintro ⟨r, hr, -⟩
    by_contra hnot
    rw [heq, if_neg hnot] at hr
    exact absurd hr (by simp)
  · intro hhanded
    have hbounded := (handler_ended hcmd hproc hrx [] groups.flatten).bounded
    rw [if_pos hhanded] at heq
    exact ⟨_, heq, rfl, rfl, rfl, hbounded.inside, hbounded.rest⟩

/-- `READ BINARY` of 128 bytes. -/
theorem readBinary_command : Command [0x00, 0xB0, 0x00, 0x00, 0x80] 5 :=
  ⟨rfl, by decide, by decide, by decide⟩

def readBinaryResponse : Response (parseCommand [0x00, 0xB0, 0x00, 0x00, 0x80] 5) :=
  ⟨[.all], List.replicate 128 0x11, 0x90, 0x00, by decide +kernel, by decide, by decide⟩

theorem sameAsPolled_iff_readBinary :
    SameAsPolled [0x00, 0xB0, 0x00, 0x00, 0x80] 5 (List.replicate 130 0) [[0xB0, 0x11], [0x11, 0x11]]
        exampleDriver ↔
      HandsOver [0x00, 0xB0, 0x00, 0x00, 0x80] 5 readBinaryResponse [0xB0, 0x11, 0x11, 0x11] :=
  @sameAsPolled_iff_handsOver _ 5 (List.replicate 130 0) exampleDriver readBinary_command (.inl rfl)
    (by decide +kernel) (by decide) readBinaryResponse [[0xB0, 0x11], [0x11, 0x11]] (by decide +kernel)

/-- The interrupt path does what the polling path does, wherever the card stops. -/
def AlwaysSame : Prop :=
  ∀ (txbuff : List UInt8) (len : ℕ) (rxbuff : List UInt8) (driver : SimDriver), Command txbuff len →
    InT0Procedure driver → (parseCommand txbuff len).le + 2 ≤ rxbuff.length →
    simCspFifoDeep - 2 < (parseCommand txbuff len).le →
    ∀ (response : Response (parseCommand txbuff len)) (groups : List (List UInt8)),
      groups.flatten <+: response.bytes → SameAsPolled txbuff len rxbuff groups driver

/-- The card stops after the first of 128 data bytes. -/
theorem not_alwaysSame : ¬ AlwaysSame := by
  intro h
  obtain ⟨r, hr, -⟩ := h _ 5 (List.replicate 130 0) exampleDriver readBinary_command (.inl rfl)
    (by decide +kernel) (by decide) readBinaryResponse [[0xB0], [0x11]] (by decide +kernel)
  rw [handlerInterrupt_eq readBinary_command (.inl rfl) (by decide) readBinaryResponse (by decide +kernel),
    if_neg (by decide)] at hr
  exact absurd hr (by simp)

end

end NbiotXY1100.SimT0Interrupt
