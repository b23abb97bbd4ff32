import NbiotXY1100.XyFlash

/-! # The wear-levelled flash store

A registered region of pages holds one value. Each page starts with a magic word and ends
with a checksum and a write number. The current page is the one with the largest write
number among those with a magic word; a write goes to the page after it. -/
namespace NbiotXY1100.EftlStore
open FlashMemory FlashAdapt XyFlash ByteBuffers

def eftlMagicNum : UInt32 := 0x5A5A5A5A

def eftlCsmOffset : Nat := 0xFF0

def eftlWriteNumOffset : Nat := 0xFF4

def xyFtlAvailableSize : Nat := 0xFEC

def nvFlashMainFactoryBase : UInt32 := 0x27003000

def nvFlashFactoryBase : UInt32 := 0x27004000

def nvFlashDspVolatileBase : UInt32 := 0x27006000

def nvFlashNetBase : UInt32 := 0x2700F000

structure XyEftlCfg where
  addr : UInt32
  tpageTotal : Nat

/-- The registered regions, the factory flag `offtime`, what `reset_factory_param` does to
factory data that is read, and the state of the flash interface. -/
structure Config where
  userNvCfgs : List XyEftlCfg
  offtime : Bool
  resetFactoryParam : List UInt8 → List UInt8
  env : FlashEnv

def findValidFtlCfg (cfgs : List XyEftlCfg) (addr : UInt32) : Option XyEftlCfg :=
  cfgs.find? fun cfg => cfg.addr == addr

def chksumLoop : UInt32 → List UInt8 → UInt32
  | acc, a :: b :: rest => chksumLoop (acc + ((a.toUInt32 <<< 8) ||| b.toUInt32)) rest
  | acc, [a] => acc + (a.toUInt32 <<< 8)
  | acc, [] => acc

def xyChksum (data : List UInt8) : UInt32 :=
  let acc := chksumLoop 0 data
  let acc := (acc >>> 16) + (acc &&& 0xffff)
  let acc := if acc &&& 0xffff0000 ≠ 0 then (acc >>> 16) + (acc &&& 0xffff) else acc
  ~~~acc

def pageAddr (addr : UInt32) (index : Nat) : UInt32 := addr + UInt32.ofNat (4096 * index)

/-- One turn of the loop over the pages: the largest write number so far and its page. -/
def scanStep (m : Memory) (addr : UInt32) (acc : UInt32 × Option Nat) (i : Nat) : UInt32 × Option Nat :=
  let writeNum := loadWord m (pageAddr addr i + UInt32.ofNat eftlWriteNumOffset)
  if loadWord m (pageAddr addr i) = eftlMagicNum ∧ writeNum ≠ 0xFFFFFFFF ∧ writeNum ≠ 0 then
    if acc.1 ≤ writeNum then (writeNum, some i) else acc
  else acc

def scanPages (m : Memory) (addr : UInt32) (total : Nat) (maxWriteNum : UInt32) : UInt32 × Option Nat :=
  (List.range total).foldl (scanStep m addr) (maxWriteNum, none)

/-- The current page with its content, if there is one, and the page for the next write. -/
structure Chosen where
  flash : Memory
  cur : Option (Nat × List UInt8)
  next : Nat

/-- From `CHOOSE_AGAIN` on. A page that fails its checksum is erased and the scan is made
again with the largest write number as it stands. -/
def chooseAgain (env : FlashEnv) (cfg : XyEftlCfg) (checkCsm : Bool) :
    Nat → UInt32 → Memory → Option Chosen
  | 0, _, _ => none
  | fuel + 1, maxWriteNum, m =>
    match scanPages m cfg.addr cfg.tpageTotal maxWriteNum with
    | (_, none) => some ⟨m, none, 0⟩
    | (maxWriteNum, some page) =>
      (xyFlashRead (pageAddr cfg.addr page) eftlPageSize m).bind fun data =>
        if checkCsm && word data eftlCsmOffset != xyChksum (data.take eftlCsmOffset) then
          (xyFlashErase env (pageAddr cfg.addr page) 4096).bind fun erased =>
            chooseAgain env cfg checkCsm fuel maxWriteNum (applyAll erased.2 m)
        else some ⟨m, some (page, data), (page + 1) % cfg.tpageTotal⟩

/-- Each retry has erased a page, so one pass more than there are pages is enough. -/
def xyChooseValidFtl (c : Config) (addr : UInt32) (checkCsm : Bool) (m : Memory) : Option Chosen :=
  (findValidFtlCfg c.userNvCfgs addr).bind fun cfg =>
    chooseAgain c.env cfg checkCsm (cfg.tpageTotal + 1) 0 m

/-- The return value, the flash and the bytes that were stored to the caller's buffer. -/
structure ReadResult where
  ret : Int
  flash : Memory
  data : Option (List UInt8)

/-- The two regions whose whole value is read without a copy, head included. -/
def readsWholePage (addr : UInt32) (size : Nat) : Bool :=
  (addr == nvFlashFactoryBase || addr == nvFlashDspVolatileBase) && size == xyFtlAvailableSize

def xyFtlRead (c : Config) (addr : UInt32) (size : Nat) (m : Memory) : Option ReadResult :=
  let offset := addr &&& 0xfff
  let addrAlign := addr - offset
  if c.offtime && nvFlashNetBase ≤ addr && addr < nvFlashNetBase + UInt32.ofNat xyFtlAvailableSize then
    some ⟨xyOk, m, none⟩
  else if size ≤ xyFtlAvailableSize ∧ addr.toNat + size ≤ addrAlign.toNat + eftlCsmOffset then
    (xyChooseValidFtl c addrAlign true m).map fun chosen =>
      match chosen.cur with
      | some (_, page) =>
        if readsWholePage addr size then ⟨xyOk, chosen.flash, some page⟩
        else ⟨xyOk, chosen.flash, some ((page.drop (4 + offset.toNat)).take size)⟩
      | none =>
        if addrAlign = nvFlashFactoryBase then
          let size := if readsWholePage addr size then size + 4 else size
          ⟨xyOk, chosen.flash,
            some (c.resetFactoryParam (read chosen.flash (nvFlashMainFactoryBase + offset) size))⟩
        else ⟨xyErr, chosen.flash, none⟩
  else none

/-- What a first write starts from: the main factory page or zeros. -/
def firstPage (base : UInt32) (m : Memory) : List UInt8 :=
  if base = nvFlashFactoryBase then read m nvFlashMainFactoryBase eftlPageSize
  else List.replicate eftlPageSize 0

/-- The page that a write stores, built from the current page. -/
def newPage (pageBuf : List UInt8) (offset : Nat) (data : List UInt8) : List UInt8 :=
  let pageBuf := setWord pageBuf 0 eftlMagicNum
  let pageBuf := splice pageBuf (4 + offset) data
  let pageBuf := setWord pageBuf eftlCsmOffset (xyChksum (pageBuf.take eftlCsmOffset))
  let writeNum := word pageBuf eftlWriteNumOffset
  let writeNum := if writeNum = 0xFFFFFFFF then 0 else writeNum
  setWord pageBuf eftlWriteNumOffset (writeNum + 1)

/-- What a write does before it stores its page: the flash after the choice and, where the
data is not there yet, the target page and its new content. -/
def planWrite (c : Config) (base : UInt32) (offset : Nat) (data : List UInt8) (checkCsm : Bool) (m : Memory) :
    Option (Memory × Option (Nat × List UInt8)) :=
  (xyChooseValidFtl c base checkCsm m).map fun chosen =>
    match chosen.cur with
    | some (_, page) =>
      if (page.drop (4 + offset)).take data.length = data then (chosen.flash, none)
      else (chosen.flash, some (chosen.next, newPage page offset data))
    | none => (chosen.flash, some (chosen.next, newPage (firstPage base chosen.flash) offset data))

/-- Data that is the RAM mirror of the region starts with four bytes for the magic word
and is written without a checksum test. -/
def xyFtlWrite (c : Config) (base : UInt32) (offset : Nat) (data : List UInt8) (size : Nat) (mirror : Bool)
    (m : Memory) : Option (Int × Memory) :=
  if c.offtime && base == nvFlashNetBase then some (xyOk, m)
  else if offset + size ≤ xyFtlAvailableSize then
    let data := (if mirror then data.drop 4 else data).take size
    (planWrite c base offset data (!mirror) m).bind fun plan =>
      match plan.2 with
      | none => some (xyOk, plan.1)
      | some (next, page) =>
        (xyFlashWrite c.env (pageAddr base next) page plan.1).bind fun written =>
          if written.1 ≠ xyOk then some written
          else if loadWord written.2 (pageAddr base next) = eftlMagicNum then some (xyOk, written.2)
          else none
  else none

end NbiotXY1100.EftlStore
