import NbiotXY1100.FotaDownload

/-! # The integrity check of a downloaded package

The stored package is read back block by block and put into an HMAC. The header is read
as a whole and its first 84 bytes are left out; then come whole blocks as long as more than
one block is left, and last the rest. The bytes left are counted in unsigned arithmetic. -/
namespace NbiotXY1100.FotaCheck
open FlashMemory XyFlash FotaDownload

/-- `BUF_LEN` -/
def bufLen : Nat := 1024

def deltaRsaShaLen : Nat := 80

/-- The block that the key fills comes before the text. -/
def hmacBlockSize : Nat := 64

/-- What `hmacResult` makes of the text and `rsa_public_decrypt` of the signature. -/
structure Crypto where
  hmacSha1 : List UInt8 → List UInt8
  rsaPublicDecrypt : List UInt8 → List UInt8

/-- A flash read: its first address and its length. -/
structure FlashRead where
  addr : UInt32
  size : Nat

/-- `read_size`, the reads that reached the flash, the lengths used with the buffer and
the text that the HMAC was given. -/
structure Progress where
  readSize : UInt32
  reads : List FlashRead
  lengths : List Nat
  text : List UInt8

/-- The result of the check: the package data handed to `xy_fota_private_data_hook`, and the
return value with the new state unless the buffer was overrun. -/
structure Checked where
  progress : Progress
  hook : Option (UInt32 × UInt32)
  ret : Option (Int × OtaState)

/-- A read that is refused leaves the zeros in the buffer. -/
def readZeroed (m : Memory) (addr : UInt32) (size : Nat) : List UInt8 :=
  (xyFlashRead addr size m).getD (List.replicate size 0)

def readsAt (addr : UInt32) (size : Nat) : List FlashRead := if inFlash addr then [⟨addr, size⟩] else []

/-- `hmacInput` fails when the count of bits no longer fits into 64 bits. -/
def hmacAccepts (text : List UInt8) : Bool := 8 * (hmacBlockSize + text.length) < 2 ^ 64

/-- One read into the buffer and one call of `hmacInput` with it. -/
def feed (m : Memory) (base : UInt32) (size : Nat) (p : Progress) : Progress where
  readSize := p.readSize + UInt32.ofNat size
  reads := p.reads ++ readsAt (base + p.readSize) size
  lengths := p.lengths ++ [size]
  text := p.text ++ readZeroed m (base + p.readSize) size

theorem readZeroed_length (m : Memory) (addr : UInt32) (size : Nat) : (readZeroed m addr size).length = size := by
  unfold readZeroed xyFlashRead
  split <;> simp

theorem feed_text_length (m : Memory) (base : UInt32) (size : Nat) (p : Progress) :
    (feed m base size p).text.length = p.text.length + size := by
  rw [feed, List.length_append, readZeroed_length]

/-- The loop over the blocks, and whether every block was accepted. -/
def hashBlocks (m : Memory) (base recvSize : UInt32) (p : Progress) : Progress × Bool :=
  if p.readSize + UInt32.ofNat bufLen < recvSize then
    if hmacAccepts (feed m base bufLen p).text then hashBlocks m base recvSize (feed m base bufLen p)
    else (feed m base bufLen p, false)
  else (p, true)
termination_by 2 ^ 61 - p.text.length
decreasing_by
  rename_i haccepts
  have hlen := feed_text_length m base bufLen p
  have hbound := of_decide_eq_true haccepts
  unfold hmacBlockSize at hbound
  unfold bufLen at hlen hbound ⊢
  omega

/-- The header in RAM and the progress with its part put into the HMAC. -/
def hashHead (m : Memory) (base : UInt32) : List UInt8 × Progress :=
  let head := readZeroed m base headSize
  (head, ⟨UInt32.ofNat headSize, readsAt base headSize, [], head.drop (4 + deltaRsaShaLen)⟩)

@[simp] theorem hashHead_readSize (m : Memory) (base : UInt32) :
    (hashHead m base).2.readSize = UInt32.ofNat headSize := rfl

def totalSha (head : List UInt8) : List UInt8 := (head.drop 4).take deltaRsaShaLen

def userDataLen (head : List UInt8) : UInt32 := ByteBuffers.word head 160

/-- The read and the input of what is left; its length is not compared with the buffer. -/
def hashRest (m : Memory) (base recvSize : UInt32) (p : Progress) : Progress :=
  feed m base (recvSize - p.readSize).toNat p

def verdict (crypto : Crypto) (head : List UInt8) (p : Progress) (s : OtaState) : Checked :=
  if (crypto.hmacSha1 p.text).take sha1HashSize = (crypto.rsaPublicDecrypt (totalSha head)).take sha1HashSize then
    ⟨p, some (fotaPacketBase head + UInt32.ofNat headSize, userDataLen head), some (xyOk, s)⟩
  else ⟨p, none, some (xyErr, OtaState.init)⟩

/-- A length beyond the buffer overruns it; what the code does then is undefined. -/
def otaDeltaCheck (crypto : Crypto) (m : Memory) (s : OtaState) : Checked :=
  if s.gFlashBase = 0 ∨ s.gRecvSize = 0 then ⟨⟨0, [], [], []⟩, none, some (xyErr, s)⟩
  else
    let head := (hashHead m s.gFlashBase).1
    let blocks := hashBlocks m s.gFlashBase s.gRecvSize (hashHead m s.gFlashBase).2
    if blocks.2 then
      let p := hashRest m s.gFlashBase s.gRecvSize blocks.1
      if bufLen < (s.gRecvSize - blocks.1.readSize).toNat then ⟨p, none, none⟩
      else if hmacAccepts p.text then verdict crypto head p s
      else ⟨p, none, some (xyErr, OtaState.init)⟩
    else ⟨blocks.1, none, some (xyErr, OtaState.init)⟩

/-- Where the last read begins when `n` bytes were received. -/
def lastStart (n : Nat) : Nat := headSize + (n - headSize - 1) / bufLen * bufLen

/-- The HMAC is given exactly the received bytes without the first 84, once and in order,
nothing is read beyond them, the buffer is never overrun, the check returns and less than a header
is rejected. -/
structure CoversPackage (m : Memory) (s : OtaState) (c : Checked) : Prop where
  returns : c.ret.isSome
  text : headSize ≤ s.gRecvSize.toNat →
    c.progress.text = read m (s.gFlashBase + 84) (s.gRecvSize.toNat - 84)
  inside : ∀ r ∈ c.progress.reads, s.gFlashBase.toNat ≤ r.addr.toNat ∧
    r.addr.toNat + r.size ≤ s.gFlashBase.toNat + max s.gRecvSize.toNat headSize
  buffer : ∀ size ∈ c.progress.lengths, size ≤ bufLen
  short : s.gRecvSize.toNat < headSize → ∃ t, c.ret = some (xyErr, t)

/-- The package is no shorter than its header and each read of it begins in the flash; or
there is less than a header and no place of a package either. -/
def Checkable (s : OtaState) : Prop :=
  (headSize ≤ s.gRecvSize.toNat ∧ flashBase.toNat ≤ s.gFlashBase.toNat ∧
    s.gFlashBase.toNat ≤ flashBase.toNat + flashLength.toNat ∧
    (headSize < s.gRecvSize.toNat →
      s.gFlashBase.toNat + lastStart s.gRecvSize.toNat ≤ flashBase.toNat + flashLength.toNat)) ∨
  (s.gRecvSize.toNat < headSize ∧ s.gFlashBase = 0)

theorem inFlash_iff {a : UInt32} :
    inFlash a ↔ flashBase.toNat ≤ a.toNat ∧ a.toNat ≤ flashBase.toNat + flashLength.toNat := by
  have hend : (flashBase + flashLength).toNat = flashBase.toNat + flashLength.toNat := rfl
  rw [inFlash, Bool.and_eq_true, decide_eq_true_eq, decide_eq_true_eq, UInt32.le_iff_toNat_le,
    UInt32.le_iff_toNat_le, hend]

theorem readZeroed_inFlash (m : Memory) {addr : UInt32} (size : Nat) (h : inFlash addr) :
    readZeroed m addr size = read m addr size := by
  rw [readZeroed, xyFlashRead, if_pos h, Option.getD_some]

theorem readZeroed_outside (m : Memory) {addr : UInt32} (size : Nat) (h : ¬ inFlash addr) :
    readZeroed m addr size = List.replicate size 0 := by
  rw [readZeroed, xyFlashRead, if_neg h, Option.getD_none]

/-- What was received up to `read_size` is in the HMAC, and the reads stayed inside it. -/
structure Reading (m : Memory) (base : UInt32) (n : Nat) (p : Progress) : Prop where
  atLeast : headSize ≤ p.readSize.toNat
  atMost : p.readSize.toNat ≤ n
  text : p.text = read m (base + 84) (p.readSize.toNat - 84)
  inside : ∀ r ∈ p.reads, base.toNat ≤ r.addr.toNat ∧ r.addr.toNat + r.size ≤ base.toNat + n
  buffer : ∀ size ∈ p.lengths, size ≤ bufLen

section
variable {m : Memory} {base : UInt32} {n : Nat} {p : Progress}

/-- A read that begins in the flash, ends within the received bytes and fits into the buffer
goes on with the text. A read of nothing may begin anywhere. -/
theorem Reading.feed (h : Reading m base n p) {size : Nat} (hsize : size ≤ bufLen)
    (hend : p.readSize.toNat + size ≤ n) (hroom : base.toNat + p.readSize.toNat + bufLen < 2 ^ 32)
    (hflash : size = 0 ∨ inFlash (base + p.readSize)) : Reading m base n (feed m base size p) := by
  have hstart := h.atLeast
  have haddr : (base + p.readSize).toNat = base.toNat + p.readSize.toNat := by
    rw [UInt32.toNat_add]
    unfold bufLen at hroom
    omega
  have hnext : (p.readSize + UInt32.ofNat size).toNat = p.readSize.toNat + size := by
    unfold bufLen at hsize hroom
    rw [UInt32.toNat_add, toNat_ofNat_of_lt (by omega)]
    omega
  constructor
  · show headSize ≤ (p.readSize + UInt32.ofNat size).toNat
    omega
  · show (p.readSize + UInt32.ofNat size).toNat ≤ n
    omega
  · show p.text ++ readZeroed m (base + p.readSize) size = read m (base + 84) ((p.readSize + UInt32.ofNat size).toNat - 84)
    have hsplit : (p.readSize + UInt32.ofNat size).toNat - 84 = p.readSize.toNat - 84 + size := by
      unfold headSize at hstart
      omega
    have hplace : base + 84 + UInt32.ofNat (p.readSize.toNat - 84) = base + p.readSize := by
      apply UInt32.toNat_inj.mp
      have hlt := p.readSize.toNat_lt
      unfold headSize at hstart
      rw [UInt32.toNat_add, UInt32.toNat_add, UInt32.toNat_add, toNat_ofNat_of_lt (by omega)]
      simp only [UInt32.reduceToNat]
      omega
    rw [h.text, hsplit, read_append, hplace]
    congr 1
    rcases hflash with rfl | hin
    · apply List.eq_nil_of_length_eq_zero
      rw [readZeroed_length]
    · exact readZeroed_inFlash m size hin
  · intro r hr
    rcases List.mem_append.mp hr with hold | hnew
    · exact h.inside r hold
    · unfold readsAt at hnew
      split at hnew
      · rw [List.mem_singleton.mp hnew]
        refine ⟨?_, ?_⟩
        · show base.toNat ≤ (base + p.readSize).toNat
          omega
        · show (base + p.readSize).toNat + size ≤ base.toNat + n
          omega
      · cases hnew
  · intro k hk
    rcases List.mem_append.mp hk with hold | hnew
    · exact h.buffer k hold
    · rw [List.mem_singleton.mp hnew]
      exact hsize

theorem hmacAccepts_of_lt {text : List UInt8} (h : text.length < 2 ^ 32) : hmacAccepts text := by
  rw [hmacAccepts, decide_eq_true_eq]
  unfold hmacBlockSize
  omega

theorem Reading.accepts (h : Reading m base n p) : hmacAccepts p.text := by
  apply hmacAccepts_of_lt
  have hlt := p.readSize.toNat_lt
  rw [h.text, read_length]
  omega

/-- The loop reads whole blocks up to the place of the last read. -/
theorem hashBlocks_reading {recvSize : UInt32} (hbase : flashBase.toNat ≤ base.toNat)
    (hlast : base.toNat + lastStart recvSize.toNat ≤ flashBase.toNat + flashLength.toNat)
    (h : Reading m base recvSize.toNat p) (hblock : p.readSize.toNat % bufLen = headSize % bufLen)
    (hlt : p.readSize.toNat < recvSize.toNat) :
    (hashBlocks m base recvSize p).2 = true ∧ Reading m base recvSize.toNat (hashBlocks m base recvSize p).1 ∧
      (hashBlocks m base recvSize p).1.readSize.toNat = lastStart recvSize.toNat := by
  have hflashBase : flashBase.toNat = 0x27000000 := rfl
  have hflashLength : flashLength.toNat = 0x200000 := rfl
  have hbuf : (UInt32.ofNat bufLen).toNat = 1024 := rfl
  unfold lastStart headSize bufLen at hlast
  rw [lastStart]
  unfold headSize bufLen at hblock ⊢
  induction p using hashBlocks.induct m base recvSize with
  | case1 p hmore haccepts ih =>
    have hstart := h.atLeast
    unfold headSize at hstart
    rw [UInt32.lt_iff_toNat_lt, UInt32.toNat_add, hbuf] at hmore
    have hnext : (feed m base bufLen p).readSize.toNat = p.readSize.toNat + 1024 := by
      show (p.readSize + UInt32.ofNat bufLen).toNat = _
      rw [UInt32.toNat_add, hbuf]
      omega
    have haddr : (base + p.readSize).toNat = base.toNat + p.readSize.toNat := by
      rw [UInt32.toNat_add]
      omega
    have hin : inFlash (base + p.readSize) := by
      rw [inFlash_iff, haddr]
      omega
    have hfeed : Reading m base recvSize.toNat (feed m base bufLen p) := by
      apply h.feed (Nat.le_refl _) _ _ (Or.inr hin)
      · unfold bufLen
        omega
      · unfold bufLen
        omega
    rw [hashBlocks, if_pos (by rw [UInt32.lt_iff_toNat_lt, UInt32.toNat_add, hbuf]; exact hmore), if_pos haccepts]
    apply ih hfeed
    · omega
    · omega
  | case2 p hmore hfull =>
    exfalso
    apply hfull
    have hstart := h.atLeast
    unfold headSize at hstart
    rw [UInt32.lt_iff_toNat_lt, UInt32.toNat_add, hbuf] at hmore
    apply hmacAccepts_of_lt
    rw [feed_text_length, h.text, read_length]
    unfold bufLen
    omega
  | case3 p hmore =>
    have hstart := h.atLeast
    have hmost := h.atMost
    unfold headSize at hstart
    rw [hashBlocks, if_neg hmore]
    rw [UInt32.lt_iff_toNat_lt, UInt32.toNat_add, hbuf] at hmore
    refine ⟨rfl, h, ?_⟩
    show p.readSize.toNat = _
    omega

theorem hashHead_reading (hin : inFlash base) (hn : headSize ≤ n) : Reading m base n (hashHead m base).2 := by
  have hpart : (hashHead m base).2.text = read m (base + 84) (headSize - 84) := by
    show (readZeroed m base headSize).drop 84 = _
    rw [readZeroed_inFlash m headSize hin, show headSize = 84 + (headSize - 84) from rfl, read_append]
    exact List.drop_left' (read_length _ _ _)
  have hplace : (hashHead m base).2.readSize.toNat = headSize := rfl
  refine ⟨Nat.le_refl _, hn, hpart, ?_, fun size hsize => by cases hsize⟩
  intro r hr
  have hr : r ∈ readsAt base headSize := hr
  rw [readsAt, if_pos hin] at hr
  rw [List.mem_singleton.mp hr]
  exact ⟨Nat.le_refl _, Nat.add_le_add_left hn _⟩

end

/-- A byte that no stored byte equals gives a refused read away. -/
theorem hashBlocks_extends (m : Memory) (base recvSize : UInt32) (p : Progress) :
    p.text <+: (hashBlocks m base recvSize p).1.text := by
  induction p using hashBlocks.induct m base recvSize with
  | case1 p hmore haccepts ih =>
    rw [hashBlocks, if_pos hmore, if_pos haccepts]
    exact (List.prefix_append _ _).trans ih
  | case2 p hmore hfull =>
    rw [hashBlocks, if_pos hmore, if_neg hfull]
    exact List.prefix_append _ _
  | case3 p hmore =>
    unfold hashBlocks
    simp only [if_neg hmore]
    exact List.prefix_rfl

/-- A block that begins outside the flash leaves zeros in the text. -/
theorem zero_mem_of_outside {m : Memory} {base recvSize : UInt32} {p : Progress}
    (hout : ¬ inFlash (base + p.readSize)) (hlt : p.readSize.toNat < recvSize.toNat) :
    0 ∈ (hashBlocks m base recvSize p).1.text ∨ ((hashBlocks m base recvSize p).2 = true ∧
      0 ∈ (hashRest m base recvSize (hashBlocks m base recvSize p).1).text) := by
  have hzero : ∀ size, 0 < size → 0 ∈ (feed m base size p).text := by
    intro size hsize
    apply List.mem_append_right
    rw [readZeroed_outside m size hout]
    exact List.mem_replicate.mpr ⟨Nat.ne_of_gt hsize, rfl⟩
  rw [hashBlocks]
  split
  next hmore =>
    left
    split
    next => exact (hashBlocks_extends m base recvSize _).subset (hzero bufLen (by decide))
    next => exact hzero bufLen (by decide)
  next hmore =>
    right
    refine ⟨rfl, hzero _ ?_⟩
    show 0 < (recvSize - p.readSize).toNat
    rw [toNat_sub_of_le (Nat.le_of_lt hlt)]
    exact Nat.sub_pos_of_lt hlt

/-- A package whose last read begins behind the flash has such a block. -/
theorem zero_mem_blocks {m : Memory} {base recvSize : UInt32} {p : Progress}
    (hlo : flashBase.toNat ≤ base.toNat)
    (hlast : flashBase.toNat + flashLength.toNat < base.toNat + lastStart recvSize.toNat)
    (hblock : p.readSize.toNat % bufLen = headSize % bufLen) (hstart : headSize ≤ p.readSize.toNat)
    (hlt : p.readSize.toNat < recvSize.toNat)
    (hnear : base.toNat + p.readSize.toNat ≤ flashBase.toNat + flashLength.toNat + 1024)
    (htext : p.text.length ≤ p.readSize.toNat) :
    0 ∈ (hashBlocks m base recvSize p).1.text ∨ ((hashBlocks m base recvSize p).2 = true ∧
      0 ∈ (hashRest m base recvSize (hashBlocks m base recvSize p).1).text) := by
  have hflashBase : flashBase.toNat = 0x27000000 := rfl
  have hflashLength : flashLength.toNat = 0x200000 := rfl
  have hbuf : (UInt32.ofNat bufLen).toNat = 1024 := rfl
  unfold lastStart headSize bufLen at hlast
  unfold headSize bufLen at hblock
  unfold headSize at hstart
  induction p using hashBlocks.induct m base recvSize with
  | case1 p hmore haccepts ih =>
    by_cases hin : inFlash (base + p.readSize)
    · have haddr : (base + p.readSize).toNat = base.toNat + p.readSize.toNat := by
        rw [UInt32.toNat_add]
        omega
      rw [inFlash_iff, haddr] at hin
      have hnext : (feed m base bufLen p).readSize.toNat = p.readSize.toNat + 1024 := by
        show (p.readSize + UInt32.ofNat bufLen).toNat = _
        rw [UInt32.toNat_add, hbuf]
        omega
      have htext' : (feed m base bufLen p).text.length = p.text.length + 1024 := feed_text_length m base bufLen p
      have hless : p.readSize.toNat + 1024 < recvSize.toNat := by
        rw [UInt32.lt_iff_toNat_lt, UInt32.toNat_add, hbuf] at hmore
        omega
      rw [hashBlocks, if_pos hmore, if_pos haccepts]
      apply ih
      · omega
      · omega
      · omega
      · omega
      · omega
    · exact zero_mem_of_outside hin hlt
  | case2 p hmore hfull =>
    exfalso
    apply hfull
    apply hmacAccepts_of_lt
    rw [feed_text_length]
    unfold bufLen
    omega
  | case3 p hmore =>
    have hless : recvSize.toNat ≤ p.readSize.toNat + 1024 := by
      rw [UInt32.lt_iff_toNat_lt, UInt32.toNat_add, hbuf] at hmore
      omega
    apply zero_mem_of_outside _ hlt
    rw [inFlash_iff, UInt32.toNat_add]
    omega

/-- The loop of the check from the header on. -/
def packageBlocks (m : Memory) (s : OtaState) : Progress × Bool :=
  hashBlocks m s.gFlashBase s.gRecvSize (hashHead m s.gFlashBase).2

section
variable {crypto : Crypto} {m : Memory} {s : OtaState}

@[simp] theorem verdict_progress (head : List UInt8) (p : Progress) :
    (verdict crypto head p s).progress = p := by
  unfold verdict
  split <;> rfl

theorem verdict_isSome (head : List UInt8) (p : Progress) : (verdict crypto head p s).ret.isSome := by
  unfold verdict
  split <;> rfl

theorem otaDeltaCheck_progress (hbase : s.gFlashBase ≠ 0) (hrecv : s.gRecvSize ≠ 0) :
    (otaDeltaCheck crypto m s).progress =
      if (packageBlocks m s).2 then hashRest m s.gFlashBase s.gRecvSize (packageBlocks m s).1
      else (packageBlocks m s).1 := by
  rw [otaDeltaCheck, if_neg (not_or.mpr ⟨hbase, hrecv⟩)]
  show (if (packageBlocks m s).2 then _ else _ : Checked).progress = _
  by_cases hok : (packageBlocks m s).2
  · rw [if_pos hok, if_pos hok]
    dsimp only
    split
    next => rfl
    next =>
      split
      next => exact verdict_progress _ _
      next => rfl
  · rw [if_neg hok, if_neg hok]
    rfl

/-- Less than a header leaves a length far beyond the buffer. -/
theorem short_overruns (hbase : s.gFlashBase ≠ 0) (hrecv : s.gRecvSize ≠ 0)
    (hshort : s.gRecvSize.toNat < headSize) :
    ∃ size ∈ (otaDeltaCheck crypto m s).progress.lengths, bufLen < size := by
  have hnone : packageBlocks m s = ((hashHead m s.gFlashBase).2, true) := by
    have hstart : ((hashHead m s.gFlashBase).2.readSize + UInt32.ofNat bufLen).toNat = 1188 := by
      rw [hashHead_readSize]
      rfl
    unfold headSize at hshort
    rw [packageBlocks, hashBlocks, if_neg (by rw [UInt32.lt_iff_toNat_lt, hstart]; omega)]
  rw [otaDeltaCheck_progress hbase hrecv, hnone, if_pos rfl]
  refine ⟨_, List.mem_append_right _ (List.mem_singleton_self _), ?_⟩
  have hhead : (UInt32.ofNat headSize).toNat = 164 := rfl
  unfold headSize at hshort
  rw [hashHead_readSize, toNat_sub_of_lt (by omega), hhead]
  unfold bufLen
  omega

theorem coversPackage_of_checkable (hrecv : s.gRecvSize ≠ 0) (h : Checkable s) :
    CoversPackage m s (otaDeltaCheck crypto m s) := by
  rcases h with ⟨hhead, hlo, hhi, hlast⟩ | ⟨hshort, hbase⟩
  · have hflashBase : flashBase.toNat = 0x27000000 := rfl
    have hflashLength : flashLength.toNat = 0x200000 := rfl
    have hbase : s.gFlashBase ≠ 0 := by
      intro hzero
      rw [hzero, hflashBase] at hlo
      exact absurd hlo (by decide)
    have hin : inFlash s.gFlashBase := inFlash_iff.mpr ⟨hlo, hhi⟩
    have hfirst := hashHead_reading (m := m) hin hhead
    obtain ⟨hok, hblocks, hplace⟩ : (packageBlocks m s).2 = true ∧
        Reading m s.gFlashBase s.gRecvSize.toNat (packageBlocks m s).1 ∧
        (packageBlocks m s).1.readSize.toNat = lastStart s.gRecvSize.toNat := by
      by_cases hmore : headSize < s.gRecvSize.toNat
      · exact hashBlocks_reading hlo (hlast hmore) hfirst rfl hmore
      · have hexact : s.gRecvSize = UInt32.ofNat headSize :=
          UInt32.toNat_inj.mp (Nat.le_antisymm (Nat.le_of_not_lt hmore) hhead)
        have hnone : packageBlocks m s = ((hashHead m s.gFlashBase).2, true) := by
          rw [packageBlocks, hashBlocks, if_neg (by rw [hexact, hashHead_readSize]; decide)]
        rw [hnone]
        refine ⟨rfl, hfirst, ?_⟩
        rw [hexact]
        rfl
    have hmost := hblocks.atMost
    have hleft : (s.gRecvSize - (packageBlocks m s).1.readSize).toNat =
        s.gRecvSize.toNat - lastStart s.gRecvSize.toNat := by
      rw [toNat_sub_of_le hmost, hplace]
    have hfits : s.gRecvSize.toNat - lastStart s.gRecvSize.toNat ≤ bufLen := by
      unfold lastStart headSize bufLen
      omega
    have hrest : Reading m s.gFlashBase s.gRecvSize.toNat
        (hashRest m s.gFlashBase s.gRecvSize (packageBlocks m s).1) := by
      rw [hashRest, hleft]
      apply hblocks.feed hfits
      · omega
      · unfold lastStart headSize bufLen at hlast hplace
        unfold headSize at hhead
        unfold bufLen
        omega
      · by_cases hmore : headSize < s.gRecvSize.toNat
        · right
          have hend := hlast hmore
          rw [inFlash_iff, UInt32.toNat_add, hplace]
          omega
        · left
          unfold lastStart headSize bufLen
          unfold headSize at hmore
          omega
    have hdone : (hashRest m s.gFlashBase s.gRecvSize (packageBlocks m s).1).readSize.toNat = s.gRecvSize.toNat := by
      show ((packageBlocks m s).1.readSize + UInt32.ofNat (s.gRecvSize - (packageBlocks m s).1.readSize).toNat).toNat = _
      rw [UInt32.ofNat_toNat]
      congr 1
      grind
    have hcheck : otaDeltaCheck crypto m s = verdict crypto (hashHead m s.gFlashBase).1
        (hashRest m s.gFlashBase s.gRecvSize (packageBlocks m s).1) s := by
      rw [otaDeltaCheck, if_neg (not_or.mpr ⟨hbase, hrecv⟩)]
      show (if (packageBlocks m s).2 then _ else _ : Checked) = _
      rw [if_pos hok]
      show (if bufLen < (s.gRecvSize - (packageBlocks m s).1.readSize).toNat then _ else _ : Checked) = _
      rw [if_neg (by rw [hleft]; exact Nat.not_lt.mpr hfits)]
      exact if_pos hrest.accepts
    rw [hcheck]
    constructor
    · exact verdict_isSome _ _
    · intro _
      rw [verdict_progress, hrest.text, hdone]
    · rw [verdict_progress, Nat.max_eq_left hhead]
      exact hrest.inside
    · rw [verdict_progress]
      exact hrest.buffer
    · intro hshort
      exact absurd hhead (Nat.not_le_of_lt hshort)
  · have hcheck : otaDeltaCheck crypto m s = ⟨⟨0, [], [], []⟩, none, some (xyErr, s)⟩ := by
      rw [otaDeltaCheck, if_pos (Or.inl hbase)]
    rw [hcheck]
    refine ⟨rfl, fun hhead => absurd hhead (Nat.not_le_of_lt hshort), ?_, ?_, fun _ => ⟨s, rfl⟩⟩
    · intro r hr
      cases hr
    · intro size hsize
      cases hsize

/-- Zeros in the text of a flash without zeros give a refused read away. -/
theorem checkable_of_coversPackage (hrecv : s.gRecvSize ≠ 0)
    (h : ∀ m, CoversPackage m s (otaDeltaCheck crypto m s)) : Checkable s := by
  by_cases hbase : s.gFlashBase = 0
  · right
    refine ⟨Nat.lt_of_not_le fun hhead => ?_, hbase⟩
    have htext := congrArg List.length ((h fun _ => 1).text hhead)
    rw [otaDeltaCheck, if_pos (Or.inl hbase), read_length] at htext
    have hempty : 0 = s.gRecvSize.toNat - 84 := htext
    unfold headSize at hhead
    omega
  · left
    have hhead : headSize ≤ s.gRecvSize.toNat := by
      apply Nat.le_of_not_lt
      intro hshort
      obtain ⟨size, hsize, hlong⟩ := @short_overruns crypto (fun _ => 1) s hbase hrecv hshort
      exact absurd ((h fun _ => 1).buffer size hsize) (Nat.not_le_of_lt hlong)
    have hones : ¬ 0 ∈ (otaDeltaCheck crypto (fun _ => 1) s).progress.text := by
      rw [(h fun _ => 1).text hhead]
      intro hzero
      obtain ⟨i, -, hi⟩ := List.mem_map.mp hzero
      have hone : (1 : UInt8) = 0 := hi
      exact absurd hone (by decide)
    rw [otaDeltaCheck_progress hbase hrecv] at hones
    have hblocks : ¬ 0 ∈ (packageBlocks (fun _ => 1) s).1.text := by
      intro hzero
      apply hones
      split
      next => exact List.mem_append_left _ hzero
      next => exact hzero
    have hin : inFlash s.gFlashBase := by
      by_contra hout
      apply hblocks
      apply (hashBlocks_extends _ _ _ _).subset
      show 0 ∈ (readZeroed (fun _ => 1) s.gFlashBase headSize).drop 84
      rw [readZeroed_outside _ _ hout]
      decide
    obtain ⟨hlo, hhi⟩ := inFlash_iff.mp hin
    refine ⟨hhead, hlo, hhi, fun hmore => Nat.le_of_not_lt fun hlast => ?_⟩
    have hnear : s.gFlashBase.toNat + headSize ≤ flashBase.toNat + flashLength.toNat + 1024 := by
      unfold headSize
      omega
    have hpart : (hashHead (fun _ => 1) s.gFlashBase).2.text.length ≤ headSize := by
      show ((readZeroed (fun _ => 1) s.gFlashBase headSize).drop 84).length ≤ headSize
      rw [List.length_drop, readZeroed_length]
      exact Nat.sub_le _ _
    have hcases : 0 ∈ (packageBlocks (fun _ => 1) s).1.text ∨ ((packageBlocks (fun _ => 1) s).2 = true ∧
        0 ∈ (hashRest (fun _ => 1) s.gFlashBase s.gRecvSize (packageBlocks (fun _ => 1) s).1).text) := by
      apply zero_mem_blocks hlo hlast
      · rfl
      · exact Nat.le_refl _
      · exact hmore
      · exact hnear
      · exact hpart
    rcases hcases with hzero | ⟨hok, hzero⟩
    · exact hblocks hzero
    · apply hones
      rw [if_pos hok]
      exact hzero

/-- The check covers the package, whatever the flash holds, exactly when the package is
checkable. -/
theorem coversPackage_iff (crypto : Crypto) (s : OtaState) (hrecv : s.gRecvSize ≠ 0) :
    (∀ m, CoversPackage m s (otaDeltaCheck crypto m s)) ↔ Checkable s :=
  ⟨checkable_of_coversPackage hrecv, fun h _ => coversPackage_of_checkable hrecv h⟩

/-- A package of 2000 bytes in the middle of the region is checked as a whole. -/
theorem coversPackage_iff_middle : CoversPackage (fun _ => 0xFF) ⟨0x27120000, 0xCC000, 2000, none⟩
    (otaDeltaCheck ⟨id, id⟩ (fun _ => 0xFF) ⟨0x27120000, 0xCC000, 2000, none⟩) :=
  (coversPackage_iff ⟨id, id⟩ ⟨0x27120000, 0xCC000, 2000, none⟩ (by decide)).mpr
    (Or.inl ⟨by decide, by decide, by decide, fun _ => by decide⟩) _

/-- Of a package of 100 bytes the check reads far beyond its buffer. -/
theorem not_coversPackage : ¬ ∀ (crypto : Crypto) (m : Memory) (s : OtaState), s.gRecvSize ≠ 0 →
    CoversPackage m s (otaDeltaCheck crypto m s) := by
  intro h
  have hcovers := h ⟨id, id⟩ (fun _ => 0xFF) ⟨0x27120000, 0xCC000, 100, none⟩ (by decide)
  obtain ⟨size, hsize, hlong⟩ := @short_overruns ⟨id, id⟩ (fun _ => 0xFF)
    ⟨0x27120000, 0xCC000, 100, none⟩ (by decide) (by decide) (by decide)
  exact absurd (hcovers.buffer size hsize) (Nat.not_le_of_lt hlong)

end

end NbiotXY1100.FotaCheck
