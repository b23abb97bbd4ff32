import NbiotXY1100.EftlPages

/-! # The passes of the page selection

An erase that the voltage check refuses leaves its page where it is, and the next pass finds it again.
So the selection ends with the pass behind the erase of the last torn page it meets. -/
namespace NbiotXY1100.EftlChoose
open FlashMemory FlashAdapt XyFlash ByteBuffers EftlStore EftlPages

/-- From `CHOOSE_AGAIN` on, with the state of the flash interface at each erase to come. -/
def choosePasses (cfg : XyEftlCfg) (checkCsm : Bool) :
    Nat → (Nat → FlashEnv) → UInt32 → Memory → Option Chosen
  | 0, _, _, _ => none
  | passes + 1, envs, maxWriteNum, m =>
    match scanPages m cfg.addr cfg.tpageTotal maxWriteNum with
    | (_, none) => some ⟨m, none, 0⟩
    | (maxWriteNum, some page) =>
      (xyFlashRead (pageAddr cfg.addr page) eftlPageSize m).bind fun data =>
        if checkCsm && word data eftlCsmOffset != xyChksum (data.take eftlCsmOffset) then
          (xyFlashErase (envs 0) (pageAddr cfg.addr page) 4096).bind fun erased =>
            choosePasses cfg checkCsm passes (fun k => envs (k + 1)) maxWriteNum (applyAll erased.2 m)
        else some ⟨m, some (page, data), (page + 1) % cfg.tpageTotal⟩

/-- `xy_choose_valid_ftl` when it returns within a number of passes. -/
def xyChooseValidFtlWithin (cfgs : List XyEftlCfg) (addr : UInt32) (checkCsm : Bool) (passes : Nat)
    (envs : Nat → FlashEnv) (m : Memory) : Option Chosen :=
  (findValidFtlCfg cfgs addr).bind fun cfg => choosePasses cfg checkCsm passes envs 0 m

/-- With one state of the interface the passes are those of the store. -/
theorem choosePasses_const (cfg : XyEftlCfg) (checkCsm : Bool) (passes : Nat) (env : FlashEnv) (mx : UInt32)
    (m : Memory) : choosePasses cfg checkCsm passes (fun _ => env) mx m = chooseAgain env cfg checkCsm passes mx m := by
  induction passes generalizing mx m with
  | zero => rfl
  | succ passes ih =>
    rw [choosePasses, chooseAgain]
    obtain ⟨maxWriteNum, page⟩ := scanPages m cfg.addr cfg.tpageTotal mx
    cases page with
    | none => rfl
    | some p => simp only [ih]

/-- The selection of the store, whose interface does not change in between, is the one within as many passes as it can
need. -/
theorem xyChooseValidFtl_eq_within (c : Config) {addr : UInt32} {cfg : XyEftlCfg}
    (hfind : findValidFtlCfg c.userNvCfgs addr = some cfg) (checkCsm : Bool) (m : Memory) :
    xyChooseValidFtl c addr checkCsm m =
      xyChooseValidFtlWithin c.userNvCfgs addr checkCsm (cfg.tpageTotal + 1) (fun _ => c.env) m := by
  rw [xyChooseValidFtl, xyChooseValidFtlWithin, hfind, Option.bind_some, Option.bind_some, choosePasses_const]

section Tied

variable (cfg : XyEftlCfg) (m : Memory)

/-- The pages with this write number, the last one first. -/
def tied (w : UInt32) : List Nat :=
  (List.range cfg.tpageTotal).reverse.filter fun j => decide (numbered (page m cfg.addr j) = some w)

def writeNumbers : List UInt32 := (List.range cfg.tpageTotal).filterMap fun j => numbered (page m cfg.addr j)

def larger (a b : UInt32) : UInt32 := if a ≤ b then b else a

/-- The largest write number, 0 when no page has one. -/
def largestNumber : UInt32 := (writeNumbers cfg m).foldl larger 0

/-- The pages with the largest write number that fail their checksum, from the last one up to the first page
that passes. -/
def tornPages : List Nat :=
  (tied cfg m (largestNumber cfg m)).takeWhile fun j => !checksumOk (page m cfg.addr j)

/-- How many of the first voltage checks are good. -/
def goodChecks (envs : Nat → FlashEnv) (n : Nat) : Nat := ((List.range n).filter fun k => !(envs k).lowVbat).length

end Tied

theorem goodChecks_succ (envs : Nat → FlashEnv) (n : Nat) :
    goodChecks envs (n + 1) = (if (envs 0).lowVbat then 0 else 1) + goodChecks (fun k => envs (k + 1)) n := by
  rw [goodChecks, List.range_succ_eq_map, List.filter_cons, List.filter_map, goodChecks]
  cases (envs 0).lowVbat with
  | true => simp [Function.comp_def]
  | false => simp [Function.comp_def, Nat.add_comm]

private theorem larger_spec (a b : UInt32) : a ≤ larger a b ∧ b ≤ larger a b ∧ (larger a b = a ∨ larger a b = b) := by
  rw [larger]
  split_ifs with h
  · exact ⟨h, UInt32.le_refl b, .inr rfl⟩
  · exact ⟨UInt32.le_refl a, UInt32.le_of_lt (UInt32.not_le.mp h), .inl rfl⟩

private theorem foldl_larger_spec (l : List UInt32) (a : UInt32) :
    a ≤ l.foldl larger a ∧ (∀ b ∈ l, b ≤ l.foldl larger a) ∧ (l.foldl larger a = a ∨ l.foldl larger a ∈ l) := by
  induction l generalizing a with
  | nil => exact ⟨UInt32.le_refl a, fun b hb => (nomatch hb), .inl rfl⟩
  | cons c l ih =>
    obtain ⟨hleft, hright, hchoice⟩ := larger_spec a c
    obtain ⟨hle, hall, hmem⟩ := ih (larger a c)
    refine ⟨UInt32.le_trans hleft hle, ?_, ?_⟩
    · intro b hb
      rcases List.mem_cons.mp hb with rfl | hb
      · exact UInt32.le_trans hright hle
      · exact hall b hb
    · rw [List.foldl_cons]
      rcases hmem with heq | hmem
      · rw [heq]
        rcases hchoice with h | h
        · exact .inl h
        · exact .inr (by rw [h]; exact List.mem_cons_self)
      · exact .inr (List.mem_cons_of_mem _ hmem)

section

variable {cfg : XyEftlCfg} {m : Memory} {w : UInt32}

private theorem takeWhile_congr {f g : Nat → Bool} {l : List Nat} (h : ∀ j ∈ l, f j = g j) :
    l.takeWhile f = l.takeWhile g := by
  induction l with
  | nil => rfl
  | cons j l ih =>
    rw [List.takeWhile_cons, List.takeWhile_cons, h j List.mem_cons_self,
      ih fun i hi => h i (List.mem_cons_of_mem _ hi)]

theorem mem_tied {j : Nat} : j ∈ tied cfg m w ↔ j < cfg.tpageTotal ∧ numbered (page m cfg.addr j) = some w := by
  simp [tied]

theorem le_largestNumber {j : Nat} (hj : j < cfg.tpageTotal) (h : numbered (page m cfg.addr j) = some w) :
    w ≤ largestNumber cfg m :=
  (foldl_larger_spec (writeNumbers cfg m) 0).2.1 w (List.mem_filterMap.mpr ⟨j, List.mem_range.mpr hj, h⟩)

theorem largestNumber_found : largestNumber cfg m = 0 ∨ ∃ j, j ∈ tied cfg m (largestNumber cfg m) := by
  rcases (foldl_larger_spec (writeNumbers cfg m) 0).2.2 with hzero | hmem
  · exact .inl hzero
  · obtain ⟨j, hj, hnum⟩ := List.mem_filterMap.mp hmem
    exact .inr ⟨j, mem_tied.mpr ⟨List.mem_range.mp hj, hnum⟩⟩

/-- Behind the last page with the number there is nothing to list. -/
theorem tied_of_last {p : Nat} (hp : p < cfg.tpageTotal)
    (hlater : ∀ j, j < cfg.tpageTotal → p < j → numbered (page m cfg.addr j) ≠ some w) :
    tied cfg m w = (List.range (p + 1)).reverse.filter fun j => decide (numbered (page m cfg.addr j) = some w) := by
  obtain ⟨k, hk⟩ := Nat.exists_eq_add_of_lt hp
  have hsplit : cfg.tpageTotal = (p + 1) + k := by omega
  rw [tied, hsplit, List.range_add, List.reverse_append, List.filter_append]
  refine (congrArg (· ++ _) ?_).trans (List.nil_append _)
  rw [List.filter_eq_nil_iff]
  intro j hj
  obtain ⟨i, hi, rfl⟩ := List.mem_map.mp (List.mem_reverse.mp hj)
  have hlt := List.mem_range.mp hi
  exact fun h => hlater (p + 1 + i) (by omega) (by omega) (of_decide_eq_true h)

theorem tied_cons {p : Nat} (hp : p < cfg.tpageTotal) (hnum : numbered (page m cfg.addr p) = some w)
    (hlater : ∀ j, j < cfg.tpageTotal → p < j → numbered (page m cfg.addr j) ≠ some w) :
    tied cfg m w = p :: (List.range p).reverse.filter fun j => decide (numbered (page m cfg.addr j) = some w) := by
  rw [tied_of_last hp hlater, List.range_succ, List.reverse_append]
  exact List.filter_cons_of_pos (decide_eq_true hnum)

/-- An erase takes the first page from the list. -/
theorem tied_erase (hcfg : Located cfg) {p : Nat} (hp : p < cfg.tpageTotal)
    (hlater : ∀ j, j < cfg.tpageTotal → p < j → numbered (page m cfg.addr j) ≠ some w) :
    tied cfg (eraseSector m (pageAddr cfg.addr p)) w =
      (List.range p).reverse.filter fun j => decide (numbered (page m cfg.addr j) = some w) := by
  have hother : ∀ j, j < cfg.tpageTotal → j ≠ p →
      page (eraseSector m (pageAddr cfg.addr p)) cfg.addr j = page m cfg.addr j :=
    fun j hj hne => page_erase_ne hcfg hp hj hne m
  rw [tied_of_last hp fun j hj hpj => by rw [hother j hj (by omega)]; exact hlater j hj hpj, List.range_succ,
    List.reverse_append, List.reverse_singleton, List.singleton_append]
  have hgone : ¬decide (numbered (page (eraseSector m (pageAddr cfg.addr p)) cfg.addr p) = some w) = true := by
    rw [numbered_erased hcfg hp]
    exact Bool.false_ne_true
  rw [List.filter_cons, if_neg hgone]
  refine List.filter_congr fun j hj => ?_
  have hlt := List.mem_range.mp (List.mem_reverse.mp hj)
  rw [hother j (by omega) (by omega)]

/-- What a scan finds when no page has a number above `w`. -/
theorem scan_tied {mx : UInt32}
    (hmax : ∀ j, j < cfg.tpageTotal → ∀ w', numbered (page m cfg.addr j) = some w' → w' ≤ w)
    (hmx : mx = w ∨ (mx ≤ w ∧ ∃ j, j ∈ tied cfg m w)) :
    scanPages m cfg.addr cfg.tpageTotal mx = (w, (tied cfg m w).head?) ∧
      ∀ p, (tied cfg m w).head? = some p → p < cfg.tpageTotal ∧ numbered (page m cfg.addr p) = some w ∧
        ∀ j, j < cfg.tpageTotal → p < j → numbered (page m cfg.addr j) ≠ some w := by
  have hscanned := scanned m cfg.addr mx cfg.tpageTotal
  obtain ⟨acc, hacc⟩ : ∃ acc, scanPages m cfg.addr cfg.tpageTotal mx = acc := ⟨_, rfl⟩
  rw [hacc] at hscanned ⊢
  obtain ⟨largest, found⟩ := acc
  cases found with
  | none =>
    obtain ⟨heq, hsmall⟩ := hscanned.none_found rfl
    have hsame : mx = w := by
      rcases hmx with h | ⟨hle, j, hj⟩
      · exact h
      · obtain ⟨hlt, hnum⟩ := mem_tied.mp hj
        exact absurd hle (UInt32.not_le.mpr (hsmall j hlt w hnum))
    have hnil : tied cfg m w = [] := by
      rw [List.eq_nil_iff_forall_not_mem]
      intro j hj
      obtain ⟨hlt, hnum⟩ := mem_tied.mp hj
      exact absurd (hsame ▸ hsmall j hlt w hnum) (UInt32.lt_irrefl w)
    have hlargest : largest = w := heq.trans hsame
    rw [hnil, hlargest]
    exact ⟨rfl, fun p hp => (nomatch hp)⟩
  | some p =>
    obtain ⟨hp, hnum, hle, hall, hlater⟩ := hscanned.found p rfl
    have hlargest : largest = w := by
      apply UInt32.le_antisymm (hmax p hp _ hnum)
      rcases hmx with rfl | ⟨-, j, hj⟩
      · exact hle
      · obtain ⟨hlt, hj⟩ := mem_tied.mp hj
        exact hall j hlt w hj
    subst hlargest
    have hlast : ∀ j, j < cfg.tpageTotal → p < j → numbered (page m cfg.addr j) ≠ some largest :=
      fun j hj hpj h => UInt32.lt_irrefl _ (hlater j hj hpj _ h)
    rw [tied_cons hp hnum hlast]
    refine ⟨rfl, fun q hq => ?_⟩
    cases hq
    exact ⟨hp, hnum, hlast⟩

end

section Passes

variable {cfg : XyEftlCfg} (hcfg : Located cfg) {m : Memory} {w mx : UInt32} {envs : Nat → FlashEnv} {passes : Nat}
include hcfg

/-- What is known between two passes: no page has a number above `w`, and the next scan starts at `w` or finds
a page with this number. -/
structure Between (cfg : XyEftlCfg) (m : Memory) (w mx : UInt32) : Prop where
  largest : ∀ j, j < cfg.tpageTotal → ∀ w', numbered (page m cfg.addr j) = some w' → w' ≤ w
  start : mx = w ∨ (mx ≤ w ∧ ∃ j, j ∈ tied cfg m w)

omit hcfg in
theorem between_start : Between cfg m (largestNumber cfg m) 0 := by
  refine ⟨fun j hj w' hw' => le_largestNumber hj hw', ?_⟩
  rcases largestNumber_found with hzero | hfound
  · exact .inl hzero.symm
  · exact .inr ⟨UInt32.zero_le, hfound⟩

omit hcfg in
theorem pass_none (h : Between cfg m w mx) (hnil : tied cfg m w = []) :
    choosePasses cfg true (passes + 1) envs mx m = some ⟨m, none, 0⟩ := by
  obtain ⟨hscan, -⟩ := scan_tied h.largest h.start
  rw [choosePasses, hscan, hnil]
  rfl

theorem pass_sound {p : Nat} {rest : List Nat} (h : Between cfg m w mx) (hcons : tied cfg m w = p :: rest)
    (hgood : checksumOk (page m cfg.addr p)) :
    choosePasses cfg true (passes + 1) envs mx m = some ⟨m, some (p, page m cfg.addr p), (p + 1) % cfg.tpageTotal⟩ := by
  obtain ⟨hscan, hhead⟩ := scan_tied h.largest h.start
  obtain ⟨hp, -⟩ := hhead p (by rw [hcons]; rfl)
  have hdata : xyFlashRead (pageAddr cfg.addr p) eftlPageSize m = some (page m cfg.addr p) :=
    if_pos (inFlash_pageAddr hcfg hp)
  have hcheck : ¬(true && word (page m cfg.addr p) eftlCsmOffset !=
      xyChksum ((page m cfg.addr p).take eftlCsmOffset)) = true := by
    rw [checksumOk, beq_iff_eq] at hgood
    rw [Bool.true_and, bne_iff_ne]
    exact fun hne => hne hgood
  rw [choosePasses, hscan, hcons]
  simp only [List.head?_cons]
  rw [hdata, Option.bind_some, if_neg hcheck]

theorem pass_torn {p : Nat} {rest : List Nat} (h : Between cfg m w mx) (hcons : tied cfg m w = p :: rest)
    (hbad : ¬checksumOk (page m cfg.addr p)) :
    choosePasses cfg true (passes + 1) envs mx m =
      choosePasses cfg true passes (fun k => envs (k + 1)) w
        (if (envs 0).lowVbat then m else eraseSector m (pageAddr cfg.addr p)) := by
  obtain ⟨hscan, hhead⟩ := scan_tied h.largest h.start
  obtain ⟨hp, -⟩ := hhead p (by rw [hcons]; rfl)
  have hdata : xyFlashRead (pageAddr cfg.addr p) eftlPageSize m = some (page m cfg.addr p) :=
    if_pos (inFlash_pageAddr hcfg hp)
  have hcheck : (true && word (page m cfg.addr p) eftlCsmOffset !=
      xyChksum ((page m cfg.addr p).take eftlCsmOffset)) = true := by
    rw [checksumOk, beq_iff_eq] at hbad
    rw [Bool.true_and, bne_iff_ne]
    exact hbad
  rw [choosePasses, hscan, hcons]
  simp only [List.head?_cons]
  rw [hdata, Option.bind_some, if_pos hcheck]
  cases hvbat : (envs 0).lowVbat with
  | true =>
    have herase : xyFlashErase (envs 0) (pageAddr cfg.addr p) 4096 = some (xyErrLowVbat, []) := by
      rw [xyFlashErase]
      exact if_pos hvbat
    rw [herase]
    rfl
  | false =>
    rw [xyFlashErase_page (pageAddr_aligned hcfg hp) hvbat]
    rfl

/-- A torn page that is erased leaves the rest of the list. -/
theorem tied_rest {p : Nat} {rest : List Nat} (h : Between cfg m w mx) (hcons : tied cfg m w = p :: rest) :
    Between cfg (eraseSector m (pageAddr cfg.addr p)) w w ∧
      tied cfg (eraseSector m (pageAddr cfg.addr p)) w = rest ∧
      ∀ j ∈ rest, page (eraseSector m (pageAddr cfg.addr p)) cfg.addr j = page m cfg.addr j := by
  obtain ⟨-, hhead⟩ := scan_tied h.largest h.start
  obtain ⟨hp, hnum, hlater⟩ := hhead p (by rw [hcons]; rfl)
  have hother : ∀ j, j < cfg.tpageTotal → j ≠ p →
      page (eraseSector m (pageAddr cfg.addr p)) cfg.addr j = page m cfg.addr j :=
    fun j hj hne => page_erase_ne hcfg hp hj hne m
  rw [tied_cons hp hnum hlater] at hcons
  obtain ⟨-, hrest⟩ := List.cons.inj hcons
  refine ⟨⟨fun j hj w' hw' => ?_, .inl rfl⟩, ?_, fun j hj => ?_⟩
  · by_cases hjp : j = p
    · rw [hjp, numbered_erased hcfg hp] at hw'
      cases hw'
    · rw [hother j hj hjp] at hw'
      exact h.largest j hj w' hw'
  · rw [tied_erase hcfg hp hlater, hrest]
  · rw [← hrest] at hj
    have hlt := List.mem_range.mp (List.mem_reverse.mp (List.mem_of_mem_filter hj))
    exact hother j (by omega) (by omega)

/-- The list of the torn pages gives the number of good checks that the selection waits for. -/
theorem choosePasses_isSome (h : Between cfg m w mx) :
    (choosePasses cfg true (passes + 1) envs mx m).isSome ↔
      ((tied cfg m w).takeWhile fun j => !checksumOk (page m cfg.addr j)).length ≤ goodChecks envs passes := by
  induction passes generalizing m mx envs with
  | zero =>
    cases hcons : tied cfg m w with
    | nil => simp [pass_none h hcons]
    | cons p rest =>
      by_cases hgood : checksumOk (page m cfg.addr p)
      · simp [pass_sound hcfg h hcons hgood, hgood]
      · rw [pass_torn hcfg h hcons hgood]
        simp [hgood, choosePasses, goodChecks]
  | succ passes ih =>
    cases hcons : tied cfg m w with
    | nil => simp [pass_none h hcons]
    | cons p rest =>
      by_cases hgood : checksumOk (page m cfg.addr p)
      · simp [pass_sound hcfg h hcons hgood, hgood]
      · rw [pass_torn hcfg h hcons hgood, goodChecks_succ]
        cases hvbat : (envs 0).lowVbat with
        | true =>
          have hnext : Between cfg m w w := ⟨h.largest, .inl rfl⟩
          rw [← hcons]
          simpa using ih hnext
        | false =>
          obtain ⟨hnext, hrest, hpages⟩ := tied_rest hcfg h hcons
          have hih := @ih _ w (fun k => envs (k + 1)) hnext
          rw [hrest, takeWhile_congr fun j hj => congrArg (fun bs => !checksumOk bs) (hpages j hj)] at hih
          simp only [Bool.false_eq_true, if_false]
          rw [hih, List.takeWhile_cons_of_pos (by simpa using hgood), List.length_cons]
          omega

/-- No page was found, or the index and the content of a page with a right checksum. -/
def Chosen.Valid (cfg : XyEftlCfg) (chosen : Chosen) : Prop :=
  chosen.cur = none ∨ ∃ p data, chosen.cur = some (p, data) ∧ p < cfg.tpageTotal ∧
    data = page chosen.flash cfg.addr p ∧ checksumOk data

theorem choosePasses_valid {chosen : Chosen} (h : Between cfg m w mx)
    (hsome : choosePasses cfg true passes envs mx m = some chosen) : Chosen.Valid cfg chosen := by
  induction passes generalizing m mx envs with
  | zero => cases hsome
  | succ passes ih =>
    cases hcons : tied cfg m w with
    | nil =>
      rw [pass_none h hcons] at hsome
      cases hsome
      exact .inl rfl
    | cons p rest =>
      by_cases hgood : checksumOk (page m cfg.addr p)
      · rw [pass_sound hcfg h hcons hgood] at hsome
        cases hsome
        obtain ⟨hp, -⟩ := mem_tied.mp (hcons ▸ List.mem_cons_self : p ∈ tied cfg m w)
        exact .inr ⟨p, _, rfl, hp, rfl, hgood⟩
      · rw [pass_torn hcfg h hcons hgood] at hsome
        cases hvbat : (envs 0).lowVbat with
        | true =>
          rw [hvbat] at hsome
          exact ih ⟨h.largest, .inl rfl⟩ hsome
        | false =>
          rw [hvbat] at hsome
          exact ih (tied_rest hcfg h hcons).1 hsome

end Passes

/-- The selection returns within one pass more than there are pages. -/
def Returns (cfgs : List XyEftlCfg) (addr : UInt32) (cfg : XyEftlCfg) (envs : Nat → FlashEnv) (m : Memory) : Prop :=
  ∃ chosen, xyChooseValidFtlWithin cfgs addr true (cfg.tpageTotal + 1) envs m = some chosen ∧ Chosen.Valid cfg chosen

section

variable {cfgs : List XyEftlCfg} {addr : UInt32} {cfg : XyEftlCfg} (hfind : findValidFtlCfg cfgs addr = some cfg)
  (hcfg : Located cfg)
include hfind hcfg

/-- How many passes the selection takes, for any content of the pages and any checks. -/
theorem within_iff (envs : Nat → FlashEnv) (m : Memory) (passes : Nat) :
    (xyChooseValidFtlWithin cfgs addr true (passes + 1) envs m).isSome ↔
      (tornPages cfg m).length ≤ goodChecks envs passes := by
  rw [xyChooseValidFtlWithin, hfind]
  exact choosePasses_isSome hcfg between_start

theorem returns_iff (envs : Nat → FlashEnv) (m : Memory) :
    Returns cfgs addr cfg envs m ↔ (tornPages cfg m).length ≤ goodChecks envs cfg.tpageTotal := by
  rw [← within_iff hfind hcfg, Option.isSome_iff_exists]
  constructor
  · exact fun ⟨chosen, hsome, _⟩ => ⟨chosen, hsome⟩
  · rintro ⟨chosen, hsome⟩
    refine ⟨chosen, hsome, ?_⟩
    rw [xyChooseValidFtlWithin, hfind] at hsome
    exact choosePasses_valid hcfg between_start hsome

end

theorem tornPages_filled : (tornPages userCfg fun _ => 0x5A).length = 2 := by
  decide +kernel

/-- Both pages are torn, and the checks before their erases are good. -/
theorem returns_torn : Returns [userCfg] userCfg.addr userCfg (fun _ => ⟨true, false⟩) (fun _ => 0x5A) := by
  rw [returns_iff (by simp [findValidFtlCfg]) region_userCfg.located, tornPages_filled]
  decide

/-- Both pages are torn, and the voltage stays low. -/
theorem not_returns_low : ¬Returns [userCfg] userCfg.addr userCfg (fun _ => ⟨true, true⟩) (fun _ => 0x5A) := by
  rw [returns_iff (by simp [findValidFtlCfg]) region_userCfg.located, tornPages_filled]
  decide

end NbiotXY1100.EftlChoose
