import NbiotXY1100.DiagFormatPacking

/-! # The scan of a whole format

The loop takes one item of the format at a turn. The number of turns comes from the length of the format
modulo 256, so in a long format only the first items are scanned. -/
namespace NbiotXY1100.DiagFormat
open ByteBuffers CStrings

/-- What the loop stores for the items, and whether it comes through them. -/
def packLoop : ℕ → List Item → List Arg → ℕ → Bool × List UInt8
  | 0, _, _, _ => (true, [])
  | _ + 1, [], _, _ => (true, [])
  | turns + 1, item :: its, args, sz =>
    if sz < 8 then (true, [])
    else if item.isRejected then (false, [])
    else
      match item.argType, args with
      | some _, a :: args =>
        let rest := packLoop turns its args (sz - (a.clip sz).bytes.length)
        (rest.1, (a.clip sz).bytes ++ rest.2)
      | _, args => packLoop turns its args sz

section Steps
variable {turns sz : ℕ} {item : Item} {its : List Item} {args : List Arg}

theorem packLoop_small (h : sz < 8) : packLoop (turns + 1) (item :: its) args sz = (true, []) := if_pos h

theorem packLoop_rejected (hsz : ¬sz < 8) (h : item.isRejected = true) :
    packLoop (turns + 1) (item :: its) args sz = (false, []) :=
  (if_neg hsz).trans (if_pos h)

theorem packLoop_none (hsz : ¬sz < 8) (h : ¬item.isRejected = true) (htype : item.argType = none) :
    packLoop (turns + 1) (item :: its) args sz = packLoop turns its args sz := by
  refine ((if_neg hsz).trans (if_neg h)).trans ?_
  rw [htype]

theorem packLoop_some {type : ArgType} {a : Arg} (hsz : ¬sz < 8) (h : ¬item.isRejected = true)
    (htype : item.argType = some type) : packLoop (turns + 1) (item :: its) (a :: args) sz =
      ((packLoop turns its args (sz - (a.clip sz).bytes.length)).1,
        (a.clip sz).bytes ++ (packLoop turns its args (sz - (a.clip sz).bytes.length)).2) := by
  refine ((if_neg hsz).trans (if_neg h)).trans ?_
  rw [htype]

end Steps

/-- A format without the excluded conversions that ends behind a conversion or a character. -/
structure Proper (fmt : List UInt8) : Prop where
  noTerminator : (0 : UInt8) ∉ fmt
  complete : Item.cut ∉ items fmt
  allowed : ∀ spec, Item.conv spec ∈ items fmt → spec.isExcluded = false

theorem Proper.text {c : UInt8} {s : List UInt8} (h : Proper (c :: s)) (hc : c ≠ percent) : Proper s := by
  have hitems := items_text hc s
  refine ⟨fun hmem => h.noTerminator (List.mem_cons_of_mem c hmem), fun hmem => h.complete ?_, fun spec hmem => h.allowed spec ?_⟩
  · rw [hitems]
    exact List.mem_cons_of_mem _ hmem
  · rw [hitems]
    exact List.mem_cons_of_mem _ hmem

/-- A proper format goes on behind a percent sign with a conversion and a proper format. -/
theorem Proper.conv {s : List UInt8} (h : Proper (percent :: s)) : ∃ spec rest, readSpec s = some (spec, rest) ∧
    spec.isExcluded = false ∧ Proper rest := by
  cases hread : readSpec s with
  | none =>
    refine absurd ?_ h.complete
    rw [items_cut hread]
    exact List.mem_singleton_self _
  | some read =>
    obtain ⟨spec, rest⟩ := read
    have hitems := items_conv hread
    refine ⟨spec, rest, rfl, h.allowed spec ?_, ?_, fun hmem => h.complete ?_, fun spec' hmem => h.allowed spec' ?_⟩
    · rw [hitems]
      exact List.mem_cons_self
    · intro hmem
      exact h.noTerminator (List.mem_cons_of_mem _ ((readSpec_suffix hread).subset (List.mem_cons_of_mem _ hmem)))
    · rw [hitems]
      exact List.mem_cons_of_mem _ hmem
    · rw [hitems]
      exact List.mem_cons_of_mem _ hmem

theorem clip_length_le {a : Arg} {sz : ℕ} (hsz : 8 ≤ sz) (hmod : sz % 4 = 0) : (a.clip sz).bytes.length ≤ sz := by
  cases a with
  | word w => exact Nat.le_trans (by decide : 4 ≤ 8) hsz
  | dword w => exact hsz
  | str s =>
    have hle := List.length_take_le (sz - 1) s
    rw [Arg.clip, str_length]
    exact wordAlign_le (by omega) hmod

/-- The loop does what `packLoop` says, with all its reads and stores inside. -/
theorem scanLoop_eq {psrc : ℕ} (hsrc : psrc % 4 = 0) (turns : ℕ) : ∀ {s packed : List UInt8} {args : List Arg} {sz : ℕ},
    Proper s → Matches (items s) args → packed.length % 4 = 0 → sz % 4 = 0 →
    (packLoop turns (items s) args sz).2.length ≤ sz ∧
    scanLoop psrc turns (Scan.at (s ++ [0]) packed sz args) =
      .ok (if (packLoop turns (items s) args sz).1 then packed.length + (packLoop turns (items s) args sz).2.length else 0,
        packed ++ (packLoop turns (items s) args sz).2 ++
          List.replicate (sz - (packLoop turns (items s) args sz).2.length) 0) := by
  induction turns with
  | zero =>
    intro s packed args sz _ _ _ _
    refine ⟨Nat.zero_le _, ?_⟩
    have hread : ∃ c, deref (s ++ [0]) = .ok c := by
      cases s with
      | nil => exact ⟨0, rfl⟩
      | cons c s => exact ⟨c, rfl⟩
    obtain ⟨c, hc⟩ := hread
    simp only [scanLoop, Scan.at, hc, Except.map, packLoop, if_true, List.append_nil, List.length_nil, Nat.add_zero,
      Nat.sub_zero]
  | succ turns ih =>
    intro s packed args sz hproper hmatch hpos hmod
    cases s with
    | nil =>
      have hitems : items [] = [] := by rw [items]
      rw [hitems]
      refine ⟨Nat.zero_le _, ?_⟩
      simp only [scanLoop, Scan.at, List.nil_append, deref, Except.bind, true_or, if_true, packLoop, List.append_nil,
        List.length_nil, Nat.add_zero, Nat.sub_zero]
    | cons c s =>
      have hzero : c ≠ 0 := fun hc => hproper.noTerminator (by rw [hc]; exact List.mem_cons_self)
      have hne : ∃ item its, items (c :: s) = item :: its := by
        by_cases hc : c = percent
        · obtain ⟨spec, rest, hread, -, -⟩ := Proper.conv (hc ▸ hproper)
          exact ⟨_, _, by rw [hc]; exact items_conv hread⟩
        · exact ⟨_, _, items_text hc s⟩
      by_cases hsz : sz < 8
      · -- no space for another argument
        obtain ⟨item, its, hitems⟩ := hne
        rw [hitems, packLoop_small hsz]
        refine ⟨Nat.zero_le _, ?_⟩
        simp only [scanLoop, Scan.at, List.cons_append, deref, Except.bind, hsz, or_true, if_true, List.append_nil,
          List.length_nil, Nat.add_zero, Nat.sub_zero]
      · have hgo : ¬(c = 0 ∨ sz < 8) := not_or.mpr ⟨hzero, hsz⟩
        by_cases hc : c = percent
        · subst hc
          obtain ⟨spec, rest, hread, hexcluded, hrest⟩ := hproper.conv
          have hitems := items_conv hread
          have hstop : conversion psrc (Scan.at (percent :: s ++ [0]) packed sz args) = .ok none →
              scanLoop psrc (turns + 1) (Scan.at (percent :: s ++ [0]) packed sz args) =
                .ok (0, packed ++ List.replicate sz 0) := by
            intro hnext
            simp only [Scan.at, List.cons_append] at hnext
            simp only [scanLoop, Scan.at, List.cons_append, deref, Except.bind, if_neg hgo, ne_eq, not_true_eq_false,
              if_false, hnext]
          have hloop : ∀ st, conversion psrc (Scan.at (percent :: s ++ [0]) packed sz args) = .ok (some st) →
              scanLoop psrc (turns + 1) (Scan.at (percent :: s ++ [0]) packed sz args) = scanLoop psrc turns st := by
            intro st hnext
            simp only [Scan.at, List.cons_append] at hnext
            simp only [scanLoop, Scan.at, List.cons_append, deref, Except.bind, if_neg hgo, ne_eq, not_true_eq_false,
              if_false, hnext]
          unfold Matches at hmatch
          rw [hitems] at hmatch ⊢
          by_cases hrejected : spec.isRejected = true
          · have hitem : (Item.conv spec).isRejected = true := hrejected
            rw [packLoop_rejected hsz hitem, hstop (conversion_rejected hread hexcluded hrejected _ rfl)]
            refine ⟨Nat.zero_le _, ?_⟩
            simp only [Bool.false_eq_true, if_false, List.append_nil, List.length_nil, Nat.sub_zero]
          · have hgoes : ¬(Item.conv spec).isRejected = true := hrejected
            have hstep := @conversion_accepted psrc s rest spec hread hexcluded hrejected
              (Scan.at (percent :: s ++ [0]) packed sz args) rfl
            cases htype : spec.argType with
            | none =>
              have hitem : (Item.conv spec).argType = none := htype
              rw [List.filterMap_cons_none hitem] at hmatch
              rw [convert_none hexcluded htype] at hstep
              rw [packLoop_none hsz hgoes hitem, hloop _ hstep]
              exact ih hrest hmatch hpos hmod
            | some type =>
              have hitem : (Item.conv spec).argType = some type := htype
              rw [List.filterMap_cons_some hitem] at hmatch
              cases hmatch with
              | @cons a _ args' _ ha hargs =>
                have hclip := @clip_length_le a sz (Nat.le_of_not_lt hsz) hmod
                have hbytes := bytes_length_mod (a.clip sz)
                rw [convert_some hrejected htype ha (Nat.le_of_not_lt hsz) hmod hpos hsrc] at hstep
                obtain ⟨hle, hscan⟩ := @ih rest (packed ++ (a.clip sz).bytes) args' (sz - (a.clip sz).bytes.length) hrest
                  hargs (by rw [List.length_append]; omega) (by omega)
                rw [packLoop_some hsz hgoes hitem, hloop _ hstep]
                refine ⟨by rw [List.length_append]; omega, ?_⟩
                change scanLoop psrc turns (Scan.at (rest ++ [0]) (packed ++ (a.clip sz).bytes)
                  (sz - (a.clip sz).bytes.length) args') = _
                rw [hscan]
                simp only [List.length_append, Nat.add_assoc, Nat.sub_sub, List.append_assoc]
        · have hitems := items_text hc s
          rw [hitems] at hmatch ⊢
          have hpack := @packLoop_none turns sz (.text c) (items s) args hsz Bool.false_ne_true rfl
          have hloop : scanLoop psrc (turns + 1) (Scan.at (c :: s ++ [0]) packed sz args) =
              scanLoop psrc turns (Scan.at (s ++ [0]) packed sz args) := by
            simp only [scanLoop, Scan.at, List.cons_append, deref, Except.bind, if_neg hgo, ne_eq, hc, not_false_eq_true,
              if_true, List.tail_cons]
          rw [hpack, hloop]
          exact ih (hproper.text hc) hmatch hpos hmod

/-! ### Formats whose arguments fit -/

theorem clip_fits {a : Arg} {sz : ℕ} (h : a.bytes.length + 8 ≤ sz) : a.clip sz = a := by
  cases a with
  | word w => rfl
  | dword w => rfl
  | str s =>
    have hle := le_wordAlign (s.length + 1)
    rw [str_length] at h
    rw [Arg.clip, List.take_of_length_le (by omega)]

/-- Where nothing is given up and every conversion is reached, all packed forms are stored. -/
theorem packLoop_all (turns : ℕ) : ∀ {its : List Item} {args : List Arg} {sz : ℕ},
    (∀ item ∈ its.take turns, ¬item.isRejected = true) → (its.drop turns).filterMap Item.argType = [] →
    Matches its args → (args.flatMap Arg.bytes).length + 8 ≤ sz →
    packLoop turns its args sz = (true, args.flatMap Arg.bytes) := by
  induction turns with
  | zero =>
    intro its args sz _ hreached hmatch _
    rw [List.drop_zero] at hreached
    unfold Matches at hmatch
    rw [hreached] at hmatch
    cases hmatch
    rfl
  | succ turns ih =>
    intro its args sz hgoes hreached hmatch hfits
    unfold Matches at hmatch
    cases its with
    | nil =>
      cases hmatch
      rfl
    | cons item its =>
      have hsz : ¬sz < 8 := Nat.not_lt_of_le (Nat.le_trans (Nat.le_add_left 8 _) hfits)
      rw [List.take_succ_cons, List.forall_mem_cons] at hgoes
      rw [List.drop_succ_cons] at hreached
      cases htype : item.argType with
      | none =>
        rw [List.filterMap_cons_none htype] at hmatch
        rw [packLoop_none hsz hgoes.1 htype]
        exact ih hgoes.2 hreached hmatch hfits
      | some type =>
        rw [List.filterMap_cons_some htype] at hmatch
        cases hmatch with
        | @cons a _ args' _ ha hargs =>
          rw [List.flatMap_cons, List.length_append] at hfits
          have hclip : a.clip sz = a := clip_fits (by omega)
          rw [packLoop_some hsz hgoes.1 htype, hclip, ih hgoes.2 hreached hargs (by omega), List.flatMap_cons]

/-- Where a conversion that is given up is reached, the scan ends with it. -/
theorem packLoop_givenUp (turns : ℕ) : ∀ {its : List Item} {args : List Arg} {sz : ℕ},
    (∃ item ∈ its.take turns, item.isRejected = true) → Matches its args →
    (args.flatMap Arg.bytes).length + 8 ≤ sz → (packLoop turns its args sz).1 = false := by
  induction turns with
  | zero =>
    intro its args sz hgiven _ _
    obtain ⟨item, hmem, -⟩ := hgiven
    rw [List.take_zero] at hmem
    cases hmem
  | succ turns ih =>
    intro its args sz hgiven hmatch hfits
    unfold Matches at hmatch
    cases its with
    | nil =>
      obtain ⟨item, hmem, -⟩ := hgiven
      cases hmem
    | cons item its =>
      have hsz : ¬sz < 8 := Nat.not_lt_of_le (Nat.le_trans (Nat.le_add_left 8 _) hfits)
      by_cases hrejected : item.isRejected = true
      · rw [packLoop_rejected hsz hrejected]
      · have hlater : ∃ item ∈ its.take turns, item.isRejected = true := by
          obtain ⟨item', hmem, hitem'⟩ := hgiven
          rw [List.take_succ_cons, List.mem_cons] at hmem
          obtain rfl | hmem := hmem
          · exact absurd hitem' hrejected
          · exact ⟨item', hmem, hitem'⟩
        cases htype : item.argType with
        | none =>
          rw [List.filterMap_cons_none htype] at hmatch
          rw [packLoop_none hsz hrejected htype]
          exact ih hlater hmatch hfits
        | some type =>
          rw [List.filterMap_cons_some htype] at hmatch
          cases hmatch with
          | @cons a _ args' _ ha hargs =>
            rw [List.flatMap_cons, List.length_append] at hfits
            have hclip : a.clip sz = a := clip_fits (by omega)
            rw [packLoop_some hsz hrejected htype, hclip]
            exact ih hlater hargs (by omega)

/-! ### The result -/

/-- The number of turns of the loop. -/
def turnsOf (fmt : List UInt8) : ℕ := fmt.length % 256

/-- A conversion that is given up is among the items that are scanned. -/
def GivenUp (fmt : List UInt8) : Prop := ∃ item ∈ (items fmt).take (turnsOf fmt), item.isRejected = true

/-- No conversion with an argument lies behind the items that are scanned. -/
def Reached (fmt : List UInt8) : Prop := ((items fmt).drop (turnsOf fmt)).filterMap Item.argType = []

theorem reached_of_short {fmt : List UInt8} (h : fmt.length ≤ 255) : Reached fmt := by
  have hturns : turnsOf fmt = fmt.length := Nat.mod_eq_of_lt (Nat.lt_succ_of_le h)
  rw [Reached, hturns, List.drop_of_length_le (items_length fmt)]
  rfl

/-- The call ends with all reads and stores inside, and where the packed forms fit with 8 bytes to spare,
the walk over the stored bytes gives the arguments. -/
def ArgsRecovered (psrc : ℕ) (fmt : List UInt8) (argBufSz : ℕ) (args : List Arg) : Prop :=
  ∃ len buf, diagStaticLogM3Args psrc fmt argBufSz args = .ok (len, buf) ∧ buf.length = argBufSz ∧ len ≤ argBufSz ∧
    ((args.flatMap Arg.bytes).length + 8 ≤ argBufSz → walk (items fmt) (buf.take len) = some args)

theorem staticLogArgs_eq {psrc argBufSz : ℕ} {fmt : List UInt8} {args : List Arg} (hsrc : psrc % 4 = 0)
    (hsize : argBufSz % 4 = 0) (hfmt : Proper fmt) (hmatch : Matches (items fmt) args) :
    (packLoop (turnsOf fmt) (items fmt) args argBufSz).2.length ≤ argBufSz ∧
    diagStaticLogM3Args psrc fmt argBufSz args =
      .ok (if (packLoop (turnsOf fmt) (items fmt) args argBufSz).1 then
          (packLoop (turnsOf fmt) (items fmt) args argBufSz).2.length else 0,
        (packLoop (turnsOf fmt) (items fmt) args argBufSz).2 ++
          List.replicate (argBufSz - (packLoop (turnsOf fmt) (items fmt) args argBufSz).2.length) 0) := by
  obtain ⟨hle, hscan⟩ := @scanLoop_eq psrc hsrc (turnsOf fmt) fmt [] args argBufSz hfmt hmatch rfl hsize
  refine ⟨hle, ?_⟩
  rw [List.length_nil, Nat.zero_add, List.nil_append] at hscan
  have hturns : (UInt8.ofNat fmt.length).toNat = turnsOf fmt := UInt8.toNat_ofNat'
  rw [diagStaticLogM3Args, diagStr2memory, hturns]
  exact hscan

/-- For a proper format nothing is read or stored outside. A conversion that the scan gives up makes the
result empty; without one the arguments are recovered as far as their conversions are reached. -/
theorem staticLogArgs_recovered (psrc argBufSz : ℕ) (fmt : List UInt8) (args : List Arg) (hsrc : psrc % 4 = 0)
    (hsize : argBufSz % 4 = 0) (hfmt : Proper fmt) (hmatch : Matches (items fmt) args) :
    ∃ len buf, diagStaticLogM3Args psrc fmt argBufSz args = .ok (len, buf) ∧ buf.length = argBufSz ∧ len ≤ argBufSz ∧
      ((args.flatMap Arg.bytes).length + 8 ≤ argBufSz →
        (GivenUp fmt → len = 0) ∧
        (¬GivenUp fmt → fmt.length ≤ 255 ∨ Reached fmt → walk (items fmt) (buf.take len) = some args)) := by
  obtain ⟨hle, hcall⟩ := @staticLogArgs_eq psrc argBufSz fmt args hsrc hsize hfmt hmatch
  refine ⟨_, _, hcall, ?_, ?_, fun hfits => ⟨fun hgiven => ?_, fun hgoes hreached => ?_⟩⟩
  · rw [List.length_append, List.length_replicate]
    omega
  · split
    · exact hle
    · exact Nat.zero_le _
  · rw [packLoop_givenUp _ hgiven hmatch hfits]
    exact if_neg Bool.false_ne_true
  · have hall : packLoop (turnsOf fmt) (items fmt) args argBufSz = (true, args.flatMap Arg.bytes) := by
      refine packLoop_all _ ?_ (hreached.elim reached_of_short id) hmatch hfits
      exact fun item hmem hrejected => hgoes ⟨item, hmem, hrejected⟩
    rw [hall, if_pos rfl, List.take_left]
    exact walk_bytes hmatch

theorem items_one {s : List UInt8} {spec : Spec} (h : readSpec s = some (spec, [])) :
    items (percent :: s) = [.conv spec] := by
  rw [items_conv h, items]

/-- A format of two conversions. -/
theorem items_sample : items [37, 100, 32, 37, 115] =
    [.conv ⟨[], [], none, 0, 100⟩, .text 32, .conv ⟨[], [], none, 0, 115⟩] := by
  have hword : readSpec [100, 32, 37, 115] = some (⟨[], [], none, 0, 100⟩, [32, 37, 115]) := by decide
  have hstr : readSpec [115] = some (⟨[], [], none, 0, 115⟩, []) := by decide
  have hlast : items [37, 115] = [.conv ⟨[], [], none, 0, 115⟩] := items_one hstr
  have hblank : items [32, 37, 115] = .text 32 :: items [37, 115] := items_text (by decide) _
  have hfirst : items [37, 100, 32, 37, 115] = .conv ⟨[], [], none, 0, 100⟩ :: items [32, 37, 115] := items_conv hword
  rw [hfirst, hblank, hlast]

theorem staticLogArgs_sample : ∃ len buf,
    diagStaticLogM3Args 0 [37, 100, 32, 37, 115] 80 [.word 7, .str [65]] = .ok (len, buf) ∧ buf.length = 80 ∧ len ≤ 80 ∧
      (([Arg.word 7, .str [65]].flatMap Arg.bytes).length + 8 ≤ 80 →
        (GivenUp [37, 100, 32, 37, 115] → len = 0) ∧
        (¬GivenUp [37, 100, 32, 37, 115] → [37, 100, 32, 37, 115].length ≤ 255 ∨ Reached [37, 100, 32, 37, 115] →
          walk (items [37, 100, 32, 37, 115]) (buf.take len) = some [.word 7, .str [65]])) := by
  refine staticLogArgs_recovered 0 80 [37, 100, 32, 37, 115] [.word 7, .str [65]] rfl rfl ⟨by decide, ?_, ?_⟩ ?_
  · rw [items_sample]
    decide
  · rw [items_sample]
    intro spec hmem
    simp only [List.mem_cons, Item.conv.injEq, List.not_mem_nil, or_false, reduceCtorEq, false_or] at hmem
    obtain rfl | rfl := hmem
    · rfl
    · rfl
  · rw [items_sample]
    exact .cons trivial (.cons (by decide : (0 : UInt8) ∉ [65]) .nil)

/-! ### Formats whose arguments are lost -/

/-- A call with a buffer as in `diag_static_logM3`, a format without the excluded conversions and
arguments that match it. -/
structure Call (psrc : ℕ) (fmt : List UInt8) (argBufSz : ℕ) (args : List Arg) : Prop where
  src : psrc % 4 = 0
  size : argBufSz % 4 = 0
  noTerminator : (0 : UInt8) ∉ fmt
  allowed : ∀ spec, Item.conv spec ∈ items fmt → spec.isExcluded = false
  args : Matches (items fmt) args

/-- A scan that stores nothing loses the argument of a conversion in front. -/
theorem lost_of_empty {psrc argBufSz : ℕ} {fmt buf : List UInt8} {args : List Arg} {spec : Spec} {its : List Item}
    {type : ArgType} (hcall : diagStaticLogM3Args psrc fmt argBufSz args = .ok (0, buf))
    (hitems : items fmt = .conv spec :: its) (htype : spec.argType = some type)
    (hfits : (args.flatMap Arg.bytes).length + 8 ≤ argBufSz) : ¬ArgsRecovered psrc fmt argBufSz args := by
  rintro ⟨len, buf', hcall', -, -, hwalk⟩
  cases hcall.symm.trans hcall'
  have hread : readArg type [] = none := by
    cases type with
    | word => rfl
    | dword => rfl
    | string => rfl
  have hitem : (Item.conv spec).argType = some type := htype
  have hlost := hwalk hfits
  rw [List.take_zero, hitems, walk, hitem] at hlost
  simp only [hread, Option.bind_none] at hlost
  cases hlost

theorem call_one {s : List UInt8} {spec : Spec} {type : ArgType} {a : Arg} (h : readSpec s = some (spec, []))
    (hs : (0 : UInt8) ∉ percent :: s) (hexcluded : spec.isExcluded = false) (htype : spec.argType = some type)
    (ha : a.HasType type) : Call 0 (percent :: s) 80 [a] := by
  refine ⟨rfl, rfl, hs, ?_, ?_⟩
  · rw [items_one h]
    intro spec' hmem
    rw [List.mem_singleton, Item.conv.injEq] at hmem
    rw [hmem, hexcluded]
  · rw [items_one h]
    have hitem : (Item.conv spec).argType = some type := htype
    unfold Matches
    rw [List.filterMap_cons_some hitem]
    exact .cons ha .nil

/-- A format whose length is a multiple of 256 is not scanned. -/
theorem staticLogArgs_noTurns {fmt : List UInt8} (h : turnsOf fmt = 0) (psrc argBufSz : ℕ) (args : List Arg) :
    diagStaticLogM3Args psrc fmt argBufSz args = .ok (0, List.replicate argBufSz 0) := by
  have hturns : (UInt8.ofNat fmt.length).toNat = 0 := UInt8.toNat_ofNat'.trans h
  rw [diagStaticLogM3Args, diagStr2memory, hturns, scanLoop]
  cases fmt with
  | nil => rfl
  | cons c fmt => rfl

/-- A format of 256 characters with its conversion in front. -/
def longFormat : List UInt8 := percent :: 100 :: List.replicate 254 97

theorem items_replicate (n : ℕ) : items (List.replicate n 97) = List.replicate n (.text 97) := by
  induction n with
  | zero =>
    rw [List.replicate_zero, List.replicate_zero, items]
  | succ n ih => rw [List.replicate_succ, List.replicate_succ, items_text (by decide), ih]

theorem items_longFormat : items longFormat = .conv ⟨[], [], none, 0, 100⟩ :: List.replicate 254 (.text 97) := by
  have hread : readSpec (100 :: List.replicate 254 97) = some (⟨[], [], none, 0, 100⟩, List.replicate 254 97) := rfl
  rw [longFormat, items_conv hread, items_replicate]

theorem call_longFormat : Call 0 longFormat 80 [.word 7] := by
  refine ⟨rfl, rfl, ?_, ?_, ?_⟩
  · intro hmem
    obtain hmem | hmem := List.mem_cons.mp hmem
    · exact absurd hmem (by decide)
    · obtain hmem | hmem := List.mem_cons.mp hmem
      · exact absurd hmem (by decide)
      · exact absurd (List.eq_of_mem_replicate hmem) (by decide)
  · rw [items_longFormat]
    intro spec hmem
    obtain hmem | hmem := List.mem_cons.mp hmem
    · rw [Item.conv.inj hmem]
      rfl
    · exact nomatch List.eq_of_mem_replicate hmem
  · rw [items_longFormat]
    have htexts : (List.replicate 254 (Item.text 97)).filterMap Item.argType = [] :=
      List.filterMap_eq_nil_iff.mpr fun item hmem => by rw [List.eq_of_mem_replicate hmem]; rfl
    have hitem : (Item.conv ⟨[], [], none, 0, 100⟩).argType = some .word := rfl
    unfold Matches
    rw [List.filterMap_cons_some hitem, htexts]
    exact .cons trivial .nil

/-- The argument is lost for "%lf" and for "% .3d", which the scan gives up, and in the long format, where it
makes no turn; "%" makes it read behind the terminator. -/
theorem not_argsRecovered :
    (Call 0 [37, 108, 102] 80 [.dword 5] ∧ ¬ArgsRecovered 0 [37, 108, 102] 80 [.dword 5]) ∧
    (Call 0 [37, 32, 46, 51, 100] 80 [.word 7] ∧ ¬ArgsRecovered 0 [37, 32, 46, 51, 100] 80 [.word 7]) ∧
    (Call 0 longFormat 80 [.word 7] ∧ ¬ArgsRecovered 0 longFormat 80 [.word 7]) ∧
    (Call 0 [37] 80 [] ∧ ¬ArgsRecovered 0 [37] 80 []) := by
  have hfloat : readSpec [108, 102] = some (⟨[], [], none, 1, 102⟩, []) := by decide
  have hspace : readSpec [32, 46, 51, 100] = some (⟨[32], [], some [51], 0, 100⟩, []) := by decide
  have hcut : items [37] = [.cut] := items_cut (by decide)
  refine ⟨⟨call_one hfloat (by decide) rfl rfl trivial, ?_⟩, ⟨call_one hspace (by decide) rfl rfl trivial, ?_⟩,
    ⟨call_longFormat, ?_⟩, ⟨⟨rfl, rfl, by decide, ?_, ?_⟩, ?_⟩⟩
  · exact lost_of_empty rfl (items_one hfloat) rfl (by decide)
  · exact lost_of_empty rfl (items_one hspace) rfl (by decide)
  · have hturns : turnsOf longFormat = 0 := by
      rw [turnsOf, longFormat, List.length_cons, List.length_cons, List.length_replicate]
    exact lost_of_empty (staticLogArgs_noTurns hturns 0 80 _) items_longFormat rfl (by decide)
  · rw [hcut]
    intro spec hmem
    exact nomatch List.mem_singleton.mp hmem
  · rw [hcut]
    exact .nil
  · rintro ⟨len, buf, hcall, -⟩
    have hbehind : diagStaticLogM3Args 0 [37] 80 [] = .error .readBehind := rfl
    exact nomatch hbehind.symm.trans hcall

end NbiotXY1100.DiagFormat
