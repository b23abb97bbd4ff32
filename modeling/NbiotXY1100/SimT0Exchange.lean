import NbiotXY1100.SimT0

/-! # The T=0 exchange with a conforming card

A conforming card answers with waiting times and acknowledgements of all or of one byte,
transfers as many data bytes as these ask for, and ends with two status bytes. -/
namespace NbiotXY1100.SimT0Exchange
open SimCard SimT0

/-- A procedure byte that does not end the exchange. -/
inductive Ack where
  | null | all | one
  deriving DecidableEq, Repr

/-- How many of `n` bytes the acknowledgements ask for. -/
def asked : List Ack → ℕ → ℕ
  | [], _ => 0
  | .null :: acks, n => asked acks n
  | .all :: _, n => n
  | .one :: acks, n => min n 1 + asked acks (n - 1)

/-- What the card sends before the status bytes; `payload` are its data bytes, none for a
command that carries data. -/
def conversation (ins : UInt8) : List Ack → List UInt8 → List UInt8
  | [], _ => []
  | .null :: acks, payload => 0x60 :: conversation ins acks payload
  | .all :: acks, payload => ins :: (payload ++ conversation ins acks [])
  | .one :: acks, payload => (ins ^^^ 0xFF) :: (payload.take 1 ++ conversation ins acks (payload.drop 1))

theorem asked_le (acks : List Ack) (n : ℕ) : asked acks n ≤ n := by
  induction acks generalizing n with
  | nil => exact Nat.zero_le n
  | cons ack acks ih =>
    cases ack with
    | null => exact ih n
    | all => exact Nat.le_refl n
    | one =>
      have := ih (n - 1)
      simp only [asked]
      omega

@[simp] theorem asked_zero (acks : List Ack) : asked acks 0 = 0 := Nat.le_zero.mp (asked_le acks 0)

/-- Neither nibble of the instruction byte is the one of a status byte. -/
def ValidIns (ins : UInt8) : Prop := ins &&& 0xF0 ≠ 0x60 ∧ ins &&& 0xF0 ≠ 0x90

/-- A first status byte, which is no waiting time. -/
def Status (sw1 : UInt8) : Prop := sw1 ≠ 0x60 ∧ (sw1 &&& 0xF0 = 0x90 ∨ sw1 &&& 0xF0 = 0x60)

theorem procedureByte_null (ins : UInt8) : procedureByte ins 0x60 = some .null := if_pos rfl

theorem procedureByte_ins {ins : UInt8} (h : ValidIns ins) : procedureByte ins ins = some .ins := by
  have hne : ins ≠ 0x60 := by
    rintro rfl
    exact h.1 (by decide)
  simp [procedureByte, hne]

private theorem high_complement (c : UInt8) : (c ^^^ 0xFF) &&& 0xF0 = (c &&& 0xF0) ^^^ 0xF0 := by
  have h : ∀ x : Fin 256, (UInt8.ofFin x ^^^ 0xFF) &&& 0xF0 = (UInt8.ofFin x &&& 0xF0) ^^^ 0xF0 := by
    decide +kernel
  exact h c.toFin

theorem ne_complement (c : UInt8) : c ≠ c ^^^ 0xFF := by
  intro h
  have h : c ^^^ c = c ^^^ (c ^^^ 0xFF) := congrArg (c ^^^ ·) h
  rw [← UInt8.xor_assoc, UInt8.xor_self, UInt8.zero_xor] at h
  exact absurd h (by decide)

theorem procedureByte_complement {ins : UInt8} (h : ValidIns ins) :
    procedureByte ins (ins ^^^ 0xFF) = some .complementIns := by
  have hne : ins ^^^ 0xFF ≠ 0x60 := by
    intro hc
    have hhigh := high_complement ins
    rw [hc] at hhigh
    have hhigh := congrArg (· ^^^ 0xF0) hhigh
    rw [UInt8.xor_assoc, UInt8.xor_self, UInt8.xor_zero] at hhigh
    exact h.2 hhigh.symm
  have hback : ins = ins ^^^ 0xFF ^^^ 0xFF := by
    rw [UInt8.xor_assoc, UInt8.xor_self, UInt8.xor_zero]
  rw [procedureByte, if_neg hne, if_neg (ne_complement ins), if_pos hback]

theorem procedureByte_status {ins sw1 : UInt8} (h : ValidIns ins) (hs : Status sw1) :
    procedureByte ins sw1 = some .sw1 := by
  obtain ⟨h60, hhigh⟩ := hs
  have hins : ins ≠ sw1 := by
    rintro rfl
    exact hhigh.elim h.2 h.1
  have hcomplement : ins ≠ sw1 ^^^ 0xFF := by
    rintro rfl
    rw [ValidIns, high_complement] at h
    obtain hhigh | hhigh := hhigh
    · rw [hhigh] at h
      exact h.1 (by decide)
    · rw [hhigh] at h
      exact h.2 (by decide)
  simp [procedureByte, h60, hins, hcomplement, hhigh]

section
variable {apdu : TCommandApdu} {len : ℕ}

theorem pollLoop_setT0 (t : T0CmdState) (s : T0State) (card : List UInt8) :
    pollLoop apdu len (s.setT0 t) card = pollLoop apdu len s card := by
  induction card generalizing s with
  | nil => rw [pollLoop_nil, pollLoop_nil]; rfl
  | cons c card ih =>
    cases hp : procedureByte apdu.ins c with
    | none =>
      rw [pollLoop_dirty hp, pollLoop_dirty hp]
      exact if_congr Iff.rfl rfl (ih { s with dirtyNum := s.dirtyNum + 1 })
    | some t' =>
      rw [pollLoop_procedure hp, pollLoop_procedure hp]
      rfl

/-- The loop after the bytes `p` were stored. -/
def receiveAll (p : List UInt8) (s : T0State) : T0State := p.foldl (fun s c => s.receive c) s

theorem receiveAll_setT0 (p : List UInt8) (t : T0CmdState) (s : T0State) :
    receiveAll p (s.setT0 t) = (receiveAll p s).setT0 t := by
  induction p generalizing s with
  | nil => rfl
  | cons c p ih => exact ih (s.receive c)

theorem sendMany_setT0 (data : List UInt8) (n : ℕ) (t : T0CmdState) (s : T0State) :
    (s.setT0 t).sendMany data n = (s.sendMany data n).setT0 t := by
  induction n generalizing s with
  | zero => rfl
  | succ n ih => exact ih (s.sendNext data)

theorem sendMany_add (data : List UInt8) (n m : ℕ) (s : T0State) :
    s.sendMany data (n + m) = (s.sendMany data n).sendMany data m := by
  induction n generalizing s with
  | zero => rw [Nat.zero_add]; rfl
  | succ n ih =>
    rw [Nat.succ_add]
    exact ih (s.sendNext data)

theorem receiveBlock_all {le : ℕ} (p tail : List UInt8) {s : T0State} (hp : s.simRxNum + p.length = le) :
    receiveBlock le s (p ++ tail) = (true, receiveAll p s, tail) := by
  induction p generalizing s with
  | nil =>
    have hdone : ¬ s.simRxNum < le := by
      simp only [List.length_nil] at hp
      omega
    cases tail <;> simp [receiveBlock, hdone, receiveAll]
  | cons c p ih =>
    simp only [List.length_cons] at hp
    have hmore : s.simRxNum < le := by omega
    rw [List.cons_append, receiveBlock, if_pos hmore]
    apply ih
    simp only [T0State.receive]
    omega

/-- A waiting time leaves the exchange where it was. -/
theorem pollLoop_null (s : T0State) (card : List UInt8) :
    pollLoop apdu len s (0x60 :: card) = pollLoop apdu len s card := by
  rw [pollLoop_procedure (procedureByte_null apdu.ins)]
  exact pollLoop_setT0 .null s card

/-- After an acknowledgement of all bytes the rest of the data comes in. -/
theorem pollLoop_readAll (hins : ValidIns apdu.ins) (hle : apdu.le ≠ 0) {s : T0State} {p : List UInt8}
    (tail : List UInt8) (hp : s.simRxNum + p.length = apdu.le) :
    pollLoop apdu len s (apdu.ins :: (p ++ tail)) = pollLoop apdu len (receiveAll p s) tail := by
  rw [pollLoop_procedure (procedureByte_ins hins)]
  have hswitch : switchT0 apdu (takeProcedure .ins apdu.ins s) (p ++ tail) =
      (true, (receiveAll p s).setT0 .ins, tail) := by
    rw [← receiveAll_setT0]
    exact (if_pos hle).trans (receiveBlock_all p tail hp)
  rw [hswitch]
  exact pollLoop_setT0 .ins (receiveAll p s) tail

theorem pollLoop_readOne (hins : ValidIns apdu.ins) (hle : apdu.le ≠ 0) {s : T0State} {p : List UInt8}
    (tail : List UInt8) (hp : s.simRxNum + p.length = apdu.le) :
    pollLoop apdu len s ((apdu.ins ^^^ 0xFF) :: (p.take 1 ++ tail)) =
      pollLoop apdu len (receiveAll (p.take 1) s) tail := by
  rw [pollLoop_procedure (procedureByte_complement hins)]
  have hswitch : switchT0 apdu (takeProcedure .complementIns (apdu.ins ^^^ 0xFF) s) (p.take 1 ++ tail) =
      (true, (receiveAll (p.take 1) s).setT0 .complementIns, tail) := by
    refine (if_pos hle).trans ?_
    cases p with
    | nil =>
      have hdone : ¬ s.simRxNum < apdu.le := by
        simp only [List.length_nil] at hp
        omega
      exact if_neg hdone
    | cons c p =>
      have hmore : s.simRxNum < apdu.le := by
        simp only [List.length_cons] at hp
        omega
      exact if_pos hmore
  rw [hswitch]
  exact pollLoop_setT0 .complementIns _ tail

theorem receiveAll_simRxNum (p : List UInt8) (s : T0State) :
    (receiveAll p s).simRxNum = s.simRxNum + p.length := by
  induction p generalizing s with
  | nil => rfl
  | cons c p ih =>
    refine (ih (s.receive c)).trans ?_
    simp only [T0State.receive, List.length_cons]
    omega

theorem receiveAll_append (p q : List UInt8) (s : T0State) :
    receiveAll (p ++ q) s = receiveAll q (receiveAll p s) := List.foldl_append

/-- The data that the acknowledgements ask for come in. -/
theorem pollLoop_read (hins : ValidIns apdu.ins) (hle : apdu.le ≠ 0) (acks : List Ack) {s : T0State}
    {p : List UInt8} (tail : List UInt8) (hp : s.simRxNum + p.length = apdu.le) :
    pollLoop apdu len s (conversation apdu.ins acks p ++ tail) =
      pollLoop apdu len (receiveAll (p.take (asked acks p.length)) s) tail := by
  induction acks generalizing s p with
  | nil => rfl
  | cons ack acks ih =>
    cases ack with
    | null => exact (pollLoop_null s _).trans (ih hp)
    | all =>
      have hend : (receiveAll p s).simRxNum + ([] : List UInt8).length = apdu.le := by
        rw [receiveAll_simRxNum, List.length_nil, Nat.add_zero, hp]
      have hrest := ih (s := receiveAll p s) hend
      rw [List.length_nil, asked_zero] at hrest
      simp only [conversation, List.cons_append, List.append_assoc, asked, List.take_length]
      exact (pollLoop_readAll hins hle _ hp).trans hrest
    | one =>
      have hend : (receiveAll (p.take 1) s).simRxNum + (p.drop 1).length = apdu.le := by
        rw [receiveAll_simRxNum, List.length_take, List.length_drop]
        omega
      have hrest := ih hend
      rw [← receiveAll_append, List.length_drop] at hrest
      simp only [conversation, List.cons_append, List.append_assoc, asked]
      rw [pollLoop_readOne hins hle _ hp, hrest, Nat.min_comm, List.take_add]
      cases p with
      | nil => simp
      | cons c p => simp

@[simp] theorem sendMany_txNum (data : List UInt8) (n : ℕ) (s : T0State) :
    (s.sendMany data n).txNum = s.txNum + n := by
  induction n generalizing s with
  | zero => rfl
  | succ n ih =>
    refine (ih (s.sendNext data)).trans ?_
    simp only [T0State.sendNext]
    omega

@[simp] theorem sendMany_early (data : List UInt8) (n : ℕ) (s : T0State) :
    (s.sendMany data n).early = s.early := by
  induction n generalizing s with
  | zero => rfl
  | succ n ih => exact ih (s.sendNext data)

theorem resetRxFifo_quiet {s : T0State} (h : s.early = []) (card : List UInt8) : resetRxFifo s card = (s, card) := by
  cases s
  simp_all [resetRxFifo]

/-- After an acknowledgement of all bytes the rest of the data goes out. -/
theorem pollLoop_writeAll (hins : ValidIns apdu.ins) (hle : apdu.le = 0) (hlc : apdu.lc ≠ 0) {s : T0State}
    (hearly : s.early = []) (tail : List UInt8) :
    pollLoop apdu len s (apdu.ins :: tail) =
      pollLoop apdu len (s.sendMany apdu.data (apdu.lc - s.txNum)) tail := by
  rw [pollLoop_procedure (procedureByte_ins hins)]
  have hswitch : switchT0 apdu (takeProcedure .ins apdu.ins s) tail =
      (true, (s.sendMany apdu.data (apdu.lc - s.txNum)).setT0 .ins, tail) := by
    refine (if_neg (not_not.mpr hle)).trans ((if_pos hlc).trans ?_)
    have hquiet : (takeProcedure .ins apdu.ins s).early = [] := hearly
    rw [resetRxFifo_quiet hquiet, ← sendMany_setT0]
    rfl
  rw [hswitch]
  exact pollLoop_setT0 .ins _ tail

theorem pollLoop_writeOne (hins : ValidIns apdu.ins) (hle : apdu.le = 0) (hlc : apdu.lc ≠ 0) (s : T0State)
    (tail : List UInt8) :
    pollLoop apdu len s ((apdu.ins ^^^ 0xFF) :: tail) =
      pollLoop apdu len (s.sendMany apdu.data (min (apdu.lc - s.txNum) 1)) tail := by
  rw [pollLoop_procedure (procedureByte_complement hins)]
  have hswitch : switchT0 apdu (takeProcedure .complementIns (apdu.ins ^^^ 0xFF) s) tail =
      (true, (s.sendMany apdu.data (min (apdu.lc - s.txNum) 1)).setT0 .complementIns, tail) := by
    refine (if_neg (not_not.mpr hle)).trans ((if_pos hlc).trans ?_)
    by_cases htx : s.txNum < apdu.lc
    · have hone : min (apdu.lc - s.txNum) 1 = 1 := by omega
      rw [hone, ← sendMany_setT0]
      exact congrArg (fun s => (true, s, tail)) (if_pos htx)
    · have hnone : min (apdu.lc - s.txNum) 1 = 0 := by omega
      rw [hnone]
      exact congrArg (fun s => (true, s, tail)) (if_neg htx)
  rw [hswitch]
  exact pollLoop_setT0 .complementIns _ tail

/-- The data that the acknowledgements ask for go out. -/
theorem pollLoop_write (hins : ValidIns apdu.ins) (hle : apdu.le = 0) (hlc : apdu.lc ≠ 0) (acks : List Ack)
    {s : T0State} (hearly : s.early = []) (tail : List UInt8) :
    pollLoop apdu len s (conversation apdu.ins acks [] ++ tail) =
      pollLoop apdu len (s.sendMany apdu.data (asked acks (apdu.lc - s.txNum))) tail := by
  induction acks generalizing s with
  | nil => rfl
  | cons ack acks ih =>
    cases ack with
    | null => exact (pollLoop_null s _).trans (ih hearly)
    | all =>
      have hrest := ih (s := s.sendMany apdu.data (apdu.lc - s.txNum)) ((sendMany_early ..).trans hearly)
      have hdone : apdu.lc - (s.sendMany apdu.data (apdu.lc - s.txNum)).txNum = 0 := by
        rw [sendMany_txNum]
        omega
      rw [hdone, asked_zero] at hrest
      exact (pollLoop_writeAll hins hle hlc hearly _).trans hrest
    | one =>
      have hrest := ih (s := s.sendMany apdu.data (min (apdu.lc - s.txNum) 1)) ((sendMany_early ..).trans hearly)
      have hleft : apdu.lc - (s.sendMany apdu.data (min (apdu.lc - s.txNum) 1)).txNum =
          apdu.lc - s.txNum - 1 := by
        rw [sendMany_txNum]
        omega
      rw [hleft, ← sendMany_add] at hrest
      exact (pollLoop_writeOne hins hle hlc s _).trans hrest

/-- The two status bytes end the exchange. -/
theorem pollLoop_status {sw1 : UInt8} (hins : ValidIns apdu.ins) (hs : Status sw1) (sw2 : UInt8) (s : T0State) :
    pollLoop apdu len s [sw1, sw2] =
      finishT0 apdu len ({ s with sw1 := sw1, sw2 := sw2 }.setT0 .success) [] := by
  rw [pollLoop_procedure (procedureByte_status hins hs)]
  rfl

/-! ### An exchange that breaks off -/

theorem receiveBlock_append {le : ℕ} (ext card : List UInt8) {s : T0State}
    (h : (receiveBlock le s card).1 = true) :
    receiveBlock le s (card ++ ext) =
      (true, (receiveBlock le s card).2.1, (receiveBlock le s card).2.2 ++ ext) := by
  induction card generalizing s with
  | nil =>
    have hdone : ¬ s.simRxNum < le := by simpa [receiveBlock] using h
    cases ext <;> simp [receiveBlock, hdone]
  | cons c card ih =>
    by_cases hmore : s.simRxNum < le
    · rw [receiveBlock, if_pos hmore] at h
      simp only [List.cons_append, receiveBlock, if_pos hmore]
      exact ih h
    · simp [receiveBlock, hmore]

theorem switchT0_append (ext card : List UInt8) {s : T0State} (hearly : s.early = [])
    (h : (switchT0 apdu s card).1 = true) :
    switchT0 apdu s (card ++ ext) = (true, (switchT0 apdu s card).2.1, (switchT0 apdu s card).2.2 ++ ext) := by
  cases ht : s.t0State with
  | null | none => simp [switchT0, ht]
  | ack | success | failure => simp [switchT0, ht] at h
  | ins =>
    by_cases hle : apdu.le = 0
    · by_cases hlc : apdu.lc = 0
      · simp [switchT0, ht, hle, hlc] at h
      · simp [switchT0, ht, hle, hlc, resetRxFifo_quiet hearly]
    · simp only [switchT0, ht, ne_eq, hle, not_false_eq_true, if_true] at h ⊢
      exact receiveBlock_append ext card h
  | complementIns =>
    by_cases hle : apdu.le = 0
    · by_cases hlc : apdu.lc = 0
      · simp [switchT0, ht, hle, hlc] at h
      · simp [switchT0, ht, hle, hlc]
    · by_cases hmore : s.simRxNum < apdu.le
      · cases card with
        | nil => simp [switchT0, ht, hle, hmore] at h
        | cons c card => simp [switchT0, ht, hle, hmore]
      · simp [switchT0, ht, hle, hmore]
  | sw1 =>
    cases card with
    | nil => simp [switchT0, ht] at h
    | cons c card => simp [switchT0, ht]

theorem receiveBlock_early (le : ℕ) (card : List UInt8) (s : T0State) :
    (receiveBlock le s card).2.1.early = s.early := by
  induction card generalizing s with
  | nil => rfl
  | cons c card ih =>
    rw [receiveBlock]
    split
    · exact ih (s.receive c)
    · rfl

theorem switchT0_early {s : T0State} (hearly : s.early = []) (card : List UInt8) :
    (switchT0 apdu s card).2.1.early = [] := by
  cases ht : s.t0State with
  | null | none | ack | success | failure => simpa [switchT0, ht] using hearly
  | ins =>
    simp only [switchT0, ht, resetRxFifo_quiet hearly]
    split
    · rw [receiveBlock_early, hearly]
    · split <;> simp [hearly]
  | complementIns =>
    simp only [switchT0, ht]
    split
    · split
      · cases card <;> exact hearly
      · exact hearly
    · split
      · dsimp only
        split <;> exact hearly
      · exact hearly
  | sw1 =>
    simp only [switchT0, ht]
    cases card <;> exact hearly

theorem finishT0_append (s : T0State) (card ext : List UInt8) :
    finishT0 apdu len s (card ++ ext) = { finishT0 apdu len s card with unread := card ++ ext } ∧
      (finishT0 apdu len s card).unread = card := by
  simp only [finishT0, failT0]
  split
  · split <;> exact ⟨rfl, rfl⟩
  · exact ⟨rfl, rfl⟩

/-- A call that succeeds does not look at what the card sends later. -/
theorem pollLoop_append (ext card : List UInt8) {s : T0State} (hearly : s.early = [])
    (h : (pollLoop apdu len s card).result = true) :
    (pollLoop apdu len s (card ++ ext)).unread = (pollLoop apdu len s card).unread ++ ext := by
  induction hn : card.length using Nat.strong_induction_on generalizing s card with
  | _ n ih =>
    cases card with
    | nil => simp [pollLoop_nil, failT0] at h
    | cons c card =>
      cases hp : procedureByte apdu.ins c with
      | none =>
        rw [pollLoop_dirty hp] at h
        rw [List.cons_append, pollLoop_dirty hp, pollLoop_dirty hp]
        by_cases hlimit : s.dirtyNum + 1 = 30
        · simp [hlimit, failT0] at h
        · rw [if_neg hlimit] at h ⊢
          rw [if_neg hlimit]
          exact ih card.length (by simp [← hn]) card (s := { s with dirtyNum := s.dirtyNum + 1 }) hearly h rfl
      | some t =>
        have hstart : (takeProcedure t c s).early = [] := by
          rw [takeProcedure]
          split <;> exact hearly
        have hlen := switchT0_length apdu (takeProcedure t c s) card
        rw [pollLoop_procedure hp] at h
        rw [List.cons_append, pollLoop_procedure hp, pollLoop_procedure hp]
        have hgo : (switchT0 apdu (takeProcedure t c s) card).1 = true := by
          by_contra hstop
          rw [continueLoop, if_pos (Bool.eq_false_iff.mpr hstop)] at h
          exact Bool.false_ne_true h
        have hnext := @switchT0_early apdu _ hstart card
        rw [switchT0_append ext card hstart hgo]
        simp only [continueLoop, hgo, Bool.true_eq_false, if_false] at h ⊢
        split
        · rw [(finishT0_append _ _ ext).1, (finishT0_append _ _ ext).2]
        · next hmore =>
          rw [if_neg hmore] at h
          exact ih _ (by simp only [← hn, List.length_cons]; omega) _ hnext h rfl

/-- Where a run takes all bytes of the card, a part of them is not enough. -/
theorem pollLoop_cut {s : T0State} {card cut : List UInt8} (hearly : s.early = [])
    (hall : (pollLoop apdu len s card).unread = []) (hcut : cut <+: card) (hne : cut ≠ card) :
    (pollLoop apdu len s cut).result = false := by
  obtain ⟨ext, rfl⟩ := hcut
  by_contra hsuccess
  have happend := pollLoop_append ext cut hearly (by simpa using hsuccess)
  rw [hall] at happend
  have hext : ext = [] := (List.append_eq_nil_iff.mp happend.symm).2
  exact hne (by rw [hext, List.append_nil])

end

end NbiotXY1100.SimT0Exchange
