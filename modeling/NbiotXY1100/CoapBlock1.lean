import Mathlib.Data.List.Nodup
import Mathlib.Data.List.GetD
import Mathlib.Algebra.GroupWithZero.Nat

/-! # Block-wise CoAP transfers

A long request comes in blocks of one size, of which only the last may be shorter. `block1.c` appends them to a buffer
and tells a repeated block by its message id. -/
namespace NbiotXY1100.CoapBlock1

def maxBlock1Size : ℕ := 4096

/-- `lwm2m_block1_data_t`. -/
structure Block1Data where
  block1buffer : List UInt8
  lastmid : ℕ

/-- What the handler gets of a message. -/
structure Message where
  mid : ℕ
  buffer : List UInt8
  blockSize : ℕ
  blockNum : ℕ
  blockMore : Bool

inductive Result where
  | reqEntityIncomplete
  | entityTooLarge
  | continued
  | complete (outputBuffer : List UInt8)

/-- The result for a message whose block is in the buffer. -/
def accepted (m : Message) (d : Block1Data) : Result :=
  if m.blockMore then .continued else .complete d.block1buffer

def xyCoapBlock1Handler (m : Message) : Option Block1Data → Option Block1Data × Result
  | none =>
    if m.blockNum = 0 then
      let d : Block1Data := { block1buffer := m.buffer, lastmid := m.mid }
      (some d, accepted m d)
    else (none, .reqEntityIncomplete)
  | some d =>
    if m.blockNum = 0 then
      let d : Block1Data := { block1buffer := m.buffer, lastmid := m.mid }
      (some d, accepted m d)
    else if d.lastmid = m.mid then (some d, accepted m d)
    else if d.block1buffer.length ≠ m.blockSize * m.blockNum % 2 ^ 32 then (some d, .reqEntityIncomplete)
    else if maxBlock1Size ≤ d.block1buffer.length + m.buffer.length then (some d, .entityTooLarge)
    else
      let d : Block1Data := { block1buffer := d.block1buffer ++ m.buffer, lastmid := m.mid }
      (some d, accepted m d)

def handleAll : List Message → Option Block1Data → Option Block1Data × List Result
  | [], d => (d, [])
  | m :: ms, d =>
    let (d', r) := xyCoapBlock1Handler m d
    ((handleAll ms d').1, r :: (handleAll ms d').2)

theorem handleAll_cons (m : Message) (ms : List Message) (d : Option Block1Data) :
    handleAll (m :: ms) d =
      ((handleAll ms (xyCoapBlock1Handler m d).1).1,
        (xyCoapBlock1Handler m d).2 :: (handleAll ms (xyCoapBlock1Handler m d).1).2) :=
  rfl

/-- A body in blocks, each with the id of its message. The number of a block has 20 bits and its size at most 11. -/
structure Transfer where
  blockSize : ℕ
  blocks : List (ℕ × List UInt8)
  ne_nil : blocks ≠ []
  pos : 0 < blockSize
  full : ∀ j (h : j + 1 < blocks.length), (blocks[j].2).length = blockSize
  mids : (blocks.map Prod.fst).Nodup
  small : blockSize * blocks.length < 2 ^ 32

namespace Transfer
variable (T : Transfer)

def count : ℕ :=
  T.blocks.length

def mid (j : ℕ) : ℕ :=
  (T.blocks.getD j (0, [])).1

def payload (j : ℕ) : List UInt8 :=
  (T.blocks.getD j (0, [])).2

def message (j : ℕ) : Message :=
  { mid := T.mid j, buffer := T.payload j, blockSize := T.blockSize, blockNum := j, blockMore := j + 1 < T.count }

/-- The first `k` blocks. -/
def upTo (k : ℕ) : List UInt8 :=
  (List.range k).flatMap T.payload

def body : List UInt8 :=
  (T.blocks.map Prod.snd).flatten

theorem upTo_succ (k : ℕ) : T.upTo (k + 1) = T.upTo k ++ T.payload k := by
  rw [upTo, List.range_succ, List.flatMap_append, List.flatMap_singleton, upTo]

theorem upTo_one : T.upTo 1 = T.payload 0 := by
  rw [T.upTo_succ 0]
  rfl

theorem payload_length {j : ℕ} (hj : j + 1 < T.count) : (T.payload j).length = T.blockSize := by
  have hlt : j < T.blocks.length := Nat.lt_of_succ_lt hj
  rw [payload, List.getD_eq_getElem _ _ hlt]
  exact T.full j hj

theorem upTo_length {k : ℕ} (hk : k < T.count) : (T.upTo k).length = T.blockSize * k := by
  induction k with
  | zero => rfl
  | succ k ih => rw [T.upTo_succ, List.length_append, ih (Nat.lt_of_succ_lt hk), T.payload_length hk, Nat.mul_succ]

theorem upTo_count : T.upTo T.count = T.body := by
  have hmap : (List.range T.count).map T.payload = T.blocks.map Prod.snd := by
    refine List.ext_getElem (by simp [count]) fun i hi _ => ?_
    rw [List.length_map, List.length_range] at hi
    rw [List.getElem_map, List.getElem_range, List.getElem_map, payload, List.getD_eq_getElem _ _ hi]
    rfl
  rw [upTo, List.flatMap_def, hmap, body]

theorem mid_inj {j k : ℕ} (hj : j < T.count) (hk : k < T.count) (h : T.mid j = T.mid k) : j = k := by
  rw [mid, mid, List.getD_eq_getElem _ _ hj, List.getD_eq_getElem _ _ hk] at h
  have hj' : j < (T.blocks.map Prod.fst).length := by rwa [List.length_map]
  have hk' : k < (T.blocks.map Prod.fst).length := by rwa [List.length_map]
  have hget : (T.blocks.map Prod.fst)[j] = (T.blocks.map Prod.fst)[k] := by
    rw [List.getElem_map, List.getElem_map]
    exact h
  exact T.mids.getElem_inj_iff.mp hget

/-! ### What the handler has -/

/-- The buffer after block `k`. -/
def stored (k : ℕ) : Block1Data :=
  { block1buffer := T.upTo (k + 1), lastmid := T.mid k }

/-- The first block fits always, and what is appended to it must stay below the limit. -/
def Fits (k : ℕ) : Prop :=
  k = 0 ∨ (T.upTo (k + 1)).length < maxBlock1Size

def Holds (d : Option Block1Data) : Prop :=
  ∀ d', d = some d' → ∃ k < T.count, d' = T.stored k ∧ T.Fits k

theorem holds_none : T.Holds none :=
  fun _ h => absurd h.symm (Option.some_ne_none _)

theorem accepted_stored {j : ℕ} (hj : j < T.count) :
    accepted (T.message j) (T.stored j) = if j + 1 = T.count then .complete T.body else .continued := by
  rw [accepted]
  by_cases h : j + 1 = T.count
  · rw [if_pos h, if_neg (by simp [message, h]), stored, h, upTo_count]
  · rw [if_neg h, if_pos (by simpa [message] using Nat.lt_of_le_of_ne hj h)]

/-- Block 0 starts over, a block with the last id is there already, and the next one is appended. -/
theorem handler_first (d : Option Block1Data) :
    xyCoapBlock1Handler (T.message 0) d = (some (T.stored 0), accepted (T.message 0) (T.stored 0)) := by
  have hstored : T.stored 0 = { block1buffer := (T.message 0).buffer, lastmid := (T.message 0).mid } := by
    rw [stored, upTo_one]
    rfl
  rw [hstored]
  have hnum : (T.message 0).blockNum = 0 := rfl
  cases d with
  | none => rw [xyCoapBlock1Handler, if_pos hnum]
  | some d => rw [xyCoapBlock1Handler, if_pos hnum]

theorem handler_again (j : ℕ) :
    xyCoapBlock1Handler (T.message j) (some (T.stored j)) = (some (T.stored j), accepted (T.message j) (T.stored j)) := by
  by_cases hj : j = 0
  · subst hj
    exact T.handler_first _
  · rw [xyCoapBlock1Handler, if_neg (show (T.message j).blockNum ≠ 0 from hj),
      if_pos (show (T.stored j).lastmid = (T.message j).mid from rfl)]

theorem handler_next {k : ℕ} (hk : k + 1 < T.count) :
    xyCoapBlock1Handler (T.message (k + 1)) (some (T.stored k)) =
      if maxBlock1Size ≤ (T.upTo (k + 2)).length then (some (T.stored k), .entityTooLarge)
      else (some (T.stored (k + 1)), accepted (T.message (k + 1)) (T.stored (k + 1))) := by
  have hmid : T.mid k ≠ T.mid (k + 1) := fun h =>
    absurd (T.mid_inj (Nat.lt_of_succ_lt hk) hk h) (Nat.ne_of_lt (Nat.lt_succ_self k))
  have hsize : T.blockSize * (k + 1) % 2 ^ 32 = T.blockSize * (k + 1) :=
    Nat.mod_eq_of_lt (Nat.lt_of_le_of_lt (Nat.mul_le_mul_left _ (Nat.le_of_lt hk)) T.small)
  have hlen : (T.stored k).block1buffer.length = (T.message (k + 1)).blockSize * (T.message (k + 1)).blockNum % 2 ^ 32 := by
    exact (T.upTo_length hk).trans hsize.symm
  have happend : (T.stored k).block1buffer ++ (T.message (k + 1)).buffer = T.upTo (k + 2) :=
    (T.upTo_succ (k + 1)).symm
  rw [xyCoapBlock1Handler, if_neg (show (T.message (k + 1)).blockNum ≠ 0 from Nat.succ_ne_zero k),
    if_neg (show (T.stored k).lastmid ≠ (T.message (k + 1)).mid from hmid), if_neg (not_not.mpr hlen),
    ← List.length_append, happend]
  rfl

/-- A block that is neither the last one nor the next one is refused. -/
theorem handler_other {j k : ℕ} (hj : j < T.count) (hk : k < T.count) (hzero : j ≠ 0) (hlast : j ≠ k)
    (hnext : j ≠ k + 1) :
    xyCoapBlock1Handler (T.message j) (some (T.stored k)) = (some (T.stored k), .reqEntityIncomplete) := by
  have hmid : T.mid k ≠ T.mid j := fun h => hlast (T.mid_inj hk hj h).symm
  have hsize : T.blockSize * j % 2 ^ 32 = T.blockSize * j :=
    Nat.mod_eq_of_lt (Nat.lt_of_le_of_lt (Nat.mul_le_mul_left _ (Nat.le_of_lt hj)) T.small)
  have hlen : (T.upTo (k + 1)).length ≠ T.blockSize * j := by
    intro heq
    by_cases hmore : k + 1 < T.count
    · rw [T.upTo_length hmore] at heq
      exact hnext (Nat.eq_of_mul_eq_mul_left T.pos heq).symm
    · -- The last block is not empty-handed: the buffer is at least as long as the blocks before it.
      have hge : T.blockSize * k ≤ (T.upTo (k + 1)).length := by
        rw [T.upTo_succ, List.length_append, T.upTo_length hk]
        exact Nat.le_add_right _ _
      have hkj : k ≤ j := Nat.le_of_mul_le_mul_left (heq ▸ hge) T.pos
      omega
  rw [xyCoapBlock1Handler, if_neg (show (T.message j).blockNum ≠ 0 from hzero),
    if_neg (show (T.stored k).lastmid ≠ (T.message j).mid from hmid)]
  exact if_pos (fun h => hlen (h.trans hsize))

theorem accepted_complete {j : ℕ} {b : List UInt8} (hj : j < T.count) (hfit : T.Fits j)
    (h : accepted (T.message j) (T.stored j) = .complete b) :
    b = T.body ∧ (T.count = 1 ∨ T.body.length < maxBlock1Size) := by
  rw [T.accepted_stored hj] at h
  split at h
  next hlast =>
    cases h
    refine ⟨rfl, hfit.imp (fun hzero => ?_) fun hlt => ?_⟩
    · rw [← hlast, hzero]
    · rwa [hlast, T.upTo_count] at hlt
  next => cases h

/-- One message of the transfer, whichever it is. -/
theorem handler_keeps {d : Option Block1Data} {j : ℕ} (hd : T.Holds d) (hj : j < T.count) :
    T.Holds (xyCoapBlock1Handler (T.message j) d).1 ∧
      ∀ b, (xyCoapBlock1Handler (T.message j) d).2 = .complete b →
        b = T.body ∧ (T.count = 1 ∨ T.body.length < maxBlock1Size) := by
  have hholds : ∀ k < T.count, T.Fits k → T.Holds (some (T.stored k)) := by
    intro k hk hfit d' h
    obtain rfl := Option.some.inj h
    exact ⟨k, hk, rfl, hfit⟩
  by_cases hzero : j = 0
  · subst hzero
    rw [T.handler_first]
    exact ⟨hholds 0 hj (Or.inl rfl), fun b h => T.accepted_complete hj (Or.inl rfl) h⟩
  · cases d with
    | none =>
      rw [xyCoapBlock1Handler, if_neg (show (T.message j).blockNum ≠ 0 from hzero)]
      exact ⟨hd, fun b h => Result.noConfusion h⟩
    | some d =>
      obtain ⟨k, hk, rfl, hfit⟩ := hd d rfl
      by_cases hlast : j = k
      · subst hlast
        rw [T.handler_again]
        exact ⟨hholds j hj hfit, fun b h => T.accepted_complete hj hfit h⟩
      · by_cases hnext : j = k + 1
        · subst hnext
          rw [T.handler_next hj]
          split
          next => exact ⟨hholds k hk hfit, fun b h => Result.noConfusion h⟩
          next hlt =>
            have hfit' : T.Fits (k + 1) := Or.inr (Nat.not_le.mp hlt)
            exact ⟨hholds (k + 1) hj hfit', fun b h => T.accepted_complete hj hfit' h⟩
        · rw [T.handler_other hj hk hzero hlast hnext]
          exact ⟨hholds k hk hfit, fun b h => Result.noConfusion h⟩

theorem handleAll_keeps {js : List ℕ} {d : Option Block1Data} (hd : T.Holds d) (hjs : ∀ j ∈ js, j < T.count) :
    ∀ b, .complete b ∈ (handleAll (js.map T.message) d).2 →
      b = T.body ∧ (T.count = 1 ∨ T.body.length < maxBlock1Size) := by
  induction js generalizing d with
  | nil => exact fun b h => absurd h List.not_mem_nil
  | cons j js ih =>
    obtain ⟨hkeep, hout⟩ := T.handler_keeps hd (hjs j List.mem_cons_self)
    intro b hb
    rcases List.mem_cons.mp hb with h | h
    · exact hout b h.symm
    · exact ih hkeep (fun i hi => hjs i (List.mem_cons_of_mem j hi)) b h

/-- The handler keeps a transfer that is over, for retransmissions. Block 0 replaces it, so that it does not matter what
was kept if block 0 comes first. -/
theorem handleAll_started {js : List ℕ} {d : Option Block1Data} (hjs : ∀ j ∈ js, j < T.count)
    (hstart : d = none ∨ js.head? = some 0) :
    ∀ b, .complete b ∈ (handleAll (js.map T.message) d).2 →
      b = T.body ∧ (T.count = 1 ∨ T.body.length < maxBlock1Size) := by
  rcases hstart with rfl | hzero
  · exact T.handleAll_keeps T.holds_none hjs
  · obtain ⟨js, rfl⟩ : ∃ rest, js = 0 :: rest := List.head?_eq_some_iff.mp hzero
    have hall : handleAll ((0 :: js).map T.message) d = handleAll ((0 :: js).map T.message) none := by
      rw [List.map_cons, handleAll_cons, handleAll_cons, T.handler_first, T.handler_first]
    rw [hall]
    exact T.handleAll_keeps T.holds_none hjs

/-! ### In order -/

/-- The state before block `k`, of a handler that had `d`. -/
def before (d : Option Block1Data) : ℕ → Option Block1Data
  | 0 => d
  | k + 1 => some (T.stored k)

end Transfer

variable (T : Transfer)

/-- Blocks may be lost, repeated and overtaken: what is handed over as complete is the body when no transfer is kept
at the start or block 0 comes first. A body of several blocks is below the limit then. -/
theorem complete_body {js : List ℕ} {d : Option Block1Data} (hjs : ∀ j ∈ js, j < T.count)
    (hstart : d = none ∨ js.head? = some 0) {b : List UInt8}
    (hb : .complete b ∈ (handleAll (js.map T.message) d).2) :
    b = T.body ∧ (T.count = 1 ∨ T.body.length < maxBlock1Size) :=
  T.handleAll_started hjs hstart b hb

def sampleBlocks : List (ℕ × List UInt8) :=
  [(10, [1, 2]), (11, [3])]

theorem sampleBlocks_full (j : ℕ) (h : j + 1 < sampleBlocks.length) : (sampleBlocks[j].2).length = 2 := by
  obtain rfl : j = 0 := by
    have hlen : sampleBlocks.length = 2 := rfl
    omega
  rfl

theorem sampleBlocks_mids : (sampleBlocks.map Prod.fst).Nodup := by
  decide

theorem sampleBlocks_small : 2 * sampleBlocks.length < 2 ^ 32 := by
  decide

def sampleTransfer : Transfer where
  blockSize := 2
  blocks := sampleBlocks
  ne_nil := List.cons_ne_nil _ _
  pos := Nat.two_pos
  full := sampleBlocks_full
  mids := sampleBlocks_mids
  small := sampleBlocks_small

theorem sampleIndices : ∀ j ∈ [0, 0, 1, 1], j < sampleTransfer.count := by
  decide

/-- What a request of two bytes has left behind. -/
def otherRequest : Block1Data :=
  { block1buffer := [8, 9], lastmid := 7 }

/-- Both blocks come twice, after another request. -/
theorem complete_body_repeated :
    [1, 2, 3] = sampleTransfer.body ∧ (sampleTransfer.count = 1 ∨ sampleTransfer.body.length < maxBlock1Size) :=
  @complete_body sampleTransfer [0, 0, 1, 1] (some otherRequest) sampleIndices (Or.inr rfl) _
    (List.mem_cons_of_mem _ (List.mem_cons_of_mem _ List.mem_cons_self))

/-- The last block of the sample after the other request: its place fits to what was left behind. -/
example : (xyCoapBlock1Handler (sampleTransfer.message 1) (some otherRequest)).2 = .complete [8, 9, 3] :=
  rfl

end NbiotXY1100.CoapBlock1
