import NbiotXY1100.OnenetConfig
import NbiotXY1100.StepRuns
import Mathlib.Data.List.Induction

/-! # Configurations are assembled from their fragments

Over a whole history, each configuration handed to `onet_init` consists of fragments that no other one
uses. A history goes wrong exactly when a fragment that is longer than its configuration opens an entry. -/
namespace NbiotXY1100.OnenetConfig
open SlotTables ByteBuffers StepRuns

variable {n : ℕ}

/-- What the steps of a history do, up to the one that stops the system. -/
def trace : List (Event n) → Table n → List (Outcome n)
  | [], _ => []
  | e :: es, t =>
    react e t :: match step e t with
      | none => []
      | some t' => trace es t'

/-- The fragment that was accepted at a place of the history. -/
def acceptedAt (tr : List (Outcome n)) (p : ℕ) : Option Fragment := (tr[p]?.bind Outcome.write).map Write.fragment

/-- The configuration that `onet_init` was called with at a place of the history. -/
def initAt (tr : List (Outcome n)) (p : ℕ) : Option Config := tr[p]?.bind Outcome.onetInit

/-- The fragments that were accepted at these places, in the order of arrival, belong to one configuration
of the size, their indexes count down to `index`, and their data is `bytes`. -/
structure AssembledFrom (tr : List (Outcome n)) (places : List ℕ) (totalsize index : ℕ) (bytes : List UInt8)
    (fragments : List Fragment) : Prop where
  order : places.Pairwise (· < ·)
  accepted : places.map (acceptedAt tr) = fragments.map some
  totalsize : ∀ f ∈ fragments, f.totalsize = totalsize
  indexes : fragments.map Fragment.index = (List.range' index fragments.length).reverse
  bytes : fragments.flatMap Fragment.data = bytes

/-- A request changes no configuration of a running context. -/
def KeepsRunning : Event n → Table n → Prop
  | .request r initOk, t => ∀ ref i, t.contexts ref = some i →
      ∀ t' ∈ step (.request r initOk) t, t'.configs i = t.configs i ∧ t'.contexts ref = some i
  | .ended _, _ => True

/-- Nothing is written behind a block, no offset leaves it, running configurations are kept, and what
`onet_init` gets is assembled from fragments of which each is used once. -/
structure HistoryOk (events : List (Event n)) : Prop where
  writes : ∀ o ∈ trace events Table.init, ∀ w ∈ o.write, w.start + w.fragment.currentsize ≤ w.totalLen
  offsets : ∀ o ∈ trace events Table.init, ∀ t ∈ o.next, ∀ i, ∀ c ∈ t.configs i, c.offset ≤ c.totalLen
  running : Along step KeepsRunning events Table.init
  inits : ∃ uses : ℕ → List ℕ,
    (∀ q, ∀ c ∈ initAt (trace events Table.init) q, (uses q).getLast? = some q ∧
      ∃ fragments, AssembledFrom (trace events Table.init) (uses q) c.totalLen 0 c.configHex fragments) ∧
    ∀ q q', q ≠ q' → List.Disjoint (uses q) (uses q')

/-- The request passes the checks, finds an empty entry, and its fragment is longer than the configuration. -/
def OpensTooLong : Event n → Table n → Prop
  | .request r _, t => (∃ i, t.configs i = none) ∧ ∃ f ∈ r.fragment, f.totalsize < f.currentsize
  | .ended _, _ => False

/-! ### Histories that grow at their end -/

theorem trace_append (es : List (Event n)) (e : Event n) (t : Table n) :
    trace (es ++ [e]) t = trace es t ++ ((run step es t).map (react e)).toList := by
  induction es generalizing t with
  | nil =>
    rw [List.nil_append, trace, trace, run_nil]
    cases step e t with
    | none => rfl
    | some t' => rfl
  | cons a es ih =>
    rw [List.cons_append, trace, trace, run_cons, List.cons_append]
    cases step a t with
    | none => rfl
    | some t' =>
      simp only [Option.bind_some]
      rw [ih]

theorem mem_trace_append {es more : List (Event n)} {t : Table n} {o : Outcome n} (h : o ∈ trace es t) :
    o ∈ trace (es ++ more) t := by
  induction es generalizing t with
  | nil => cases h
  | cons a es ih =>
    rw [List.cons_append, trace, List.mem_cons]
    rw [trace, List.mem_cons] at h
    obtain h | h := h
    · exact .inl h
    · right
      cases ha : step a t with
      | none =>
        rw [ha] at h
        cases h
      | some t' =>
        rw [ha] at h
        exact ih h

/-- Each outcome of a trace is that of a step in a state that the run reached. -/
theorem mem_trace {es : List (Event n)} {t : Table n} {o : Outcome n} (h : o ∈ trace es t) :
    ∃ before e t', (before ++ [e]) <+: es ∧ run step before t = some t' ∧ o = react e t' := by
  induction es generalizing t with
  | nil => cases h
  | cons a es ih =>
    rw [trace, List.mem_cons] at h
    obtain rfl | h := h
    · exact ⟨[], a, t, ⟨es, rfl⟩, rfl, rfl⟩
    · cases ha : step a t with
      | none =>
        rw [ha] at h
        cases h
      | some t₁ =>
        rw [ha] at h
        obtain ⟨before, e, t', ⟨rest, hrest⟩, hrun, ho⟩ := ih h
        refine ⟨a :: before, e, t', ⟨rest, ?_⟩, ?_, ho⟩
        · rw [List.cons_append, List.cons_append, hrest]
        · rw [run_cons, ha, Option.bind_some, hrun]

section Assembly
variable {tr more : List (Outcome n)} {places : List ℕ} {totalsize index : ℕ} {bytes : List UInt8} {fragments : List Fragment}

theorem AssembledFrom.lt_length (h : AssembledFrom tr places totalsize index bytes fragments) : ∀ p ∈ places, p < tr.length := by
  intro p hp
  have hmem : acceptedAt tr p ∈ fragments.map some := h.accepted ▸ List.mem_map_of_mem hp
  obtain ⟨f, -, hf⟩ := List.mem_map.mp hmem
  by_contra hlt
  rw [acceptedAt, List.getElem?_eq_none (Nat.le_of_not_lt hlt)] at hf
  cases hf

theorem acceptedAt_append {p : ℕ} (h : p < tr.length) : acceptedAt (tr ++ more) p = acceptedAt tr p := by
  rw [acceptedAt, acceptedAt, List.getElem?_append_left h]

theorem AssembledFrom.append (h : AssembledFrom tr places totalsize index bytes fragments) (more : List (Outcome n)) :
    AssembledFrom (tr ++ more) places totalsize index bytes fragments := by
  refine ⟨h.order, ?_, h.totalsize, h.indexes, h.bytes⟩
  rw [← h.accepted]
  exact List.map_congr_left fun p hp => acceptedAt_append (h.lt_length p hp)

/-- One more fragment with the next index. -/
theorem AssembledFrom.snoc {f : Fragment} {o : Outcome n} {w : Write}
    (h : AssembledFrom tr places totalsize (f.index + 1) bytes fragments) (htotal : f.totalsize = totalsize)
    (ho : o.write = some w) (hw : w.fragment = f) :
    AssembledFrom (tr ++ [o]) (places ++ [tr.length]) totalsize f.index (bytes ++ f.data) (fragments ++ [f]) := by
  have haccepted : acceptedAt (tr ++ [o]) tr.length = some f := by
    rw [acceptedAt, List.getElem?_append_right (Nat.le_refl _), Nat.sub_self, List.getElem?_cons_zero, Option.bind_some, ho,
      Option.map_some, hw]
  refine ⟨?_, ?_, ?_, ?_, ?_⟩
  · rw [List.pairwise_append]
    refine ⟨h.order, List.pairwise_singleton _ _, fun p hp q hq => ?_⟩
    rw [List.mem_singleton.mp hq]
    exact h.lt_length p hp
  · rw [List.map_append, List.map_append, (h.append [o]).accepted, List.map_singleton, List.map_singleton, haccepted]
  · intro g hg
    obtain hg | hg := List.mem_append.mp hg
    · exact h.totalsize g hg
    · rw [List.mem_singleton.mp hg, htotal]
  · rw [List.map_append, h.indexes, List.length_append, List.length_singleton, List.range'_succ, List.reverse_cons,
      List.map_singleton]
  · rw [List.flatMap_append, h.bytes, List.flatMap_singleton]

theorem assembledFrom_nil (tr : List (Outcome n)) (totalsize index : ℕ) : AssembledFrom tr [] totalsize index [] [] :=
  ⟨List.Pairwise.nil, rfl, fun _ h => (nomatch h), rfl, rfl⟩

end Assembly

/-! ### One step -/

/-- No offset leaves its block, and the configurations of running contexts are complete. -/
structure Table.Inv (t : Table n) : Prop where
  within : ∀ i c, t.configs i = some c → c.offset ≤ c.totalLen
  running : ∀ ref i, t.contexts ref = some i → ∃ c, t.configs i = some c ∧ c.index = 0
  single : Distinct id t.contexts

theorem inv_init : (Table.init : Table n).Inv := ⟨fun _ _ h => (nomatch h), fun _ _ h => (nomatch h), distinct_empty⟩

variable {t : Table n} {f : Fragment} {i : Fin n} {e : Event n}

/-- A fragment that opens no entry too long fits. -/
theorem fits_of {r : Request} {initOk : Bool} (hgood : ¬OpensTooLong (.request r initOk) t)
    (hf : r.fragment = some f) (hi : t.configs i = none ∨ ∃ c, t.configs i = some c ∧ c.continuedBy f = true) :
    ((t.configs i).getD (Config.new f)).offset + f.currentsize ≤ ((t.configs i).getD (Config.new f)).totalLen := by
  obtain hnone | ⟨c, hc, hcont⟩ := hi
  · have hsize : f.currentsize ≤ f.totalsize := by
      by_contra hlong
      exact hgood ⟨⟨i, hnone⟩, f, hf, Nat.lt_of_not_le hlong⟩
    rw [hnone, Option.getD_none, new_totalLen]
    exact Nat.le_trans (Nat.le_of_eq (Nat.zero_add _)) hsize
  · obtain ⟨htotal, -, hfit⟩ := continuedBy_iff.mp hcont
    rw [hc, Option.getD_some, htotal]
    exact hfit

/-- The entry that is found belongs to no running context. -/
theorem not_running (hinv : t.Inv) (hi : t.configs i = none ∨ ∃ c, t.configs i = some c ∧ c.continuedBy f = true)
    {ref : Fin n} : t.contexts ref ≠ some i := by
  intro href
  obtain ⟨c, hc, hindex⟩ := hinv.running ref i href
  obtain hnone | ⟨c', hc', hcont⟩ := hi
  · exact nomatch hnone.symm.trans hc
  · obtain rfl := Option.some.inj (hc.symm.trans hc')
    obtain ⟨-, hnext, -⟩ := continuedBy_iff.mp hcont
    omega

/-- An entry that no running context uses can be replaced or emptied. -/
theorem Table.Inv.setConfig (hinv : t.Inv) (hfree : ∀ ref, t.contexts ref ≠ some i) (c : Option Config)
    (hc : ∀ c' ∈ c, c'.offset ≤ c'.totalLen) : ({ t with configs := Function.update t.configs i c } : Table n).Inv := by
  refine ⟨?_, ?_, hinv.single⟩
  · intro j d hd
    by_cases hj : j = i
    · subst hj
      exact hc d ((Function.update_self j c t.configs).symm.trans hd)
    · exact hinv.within j d ((Function.update_of_ne hj c t.configs).symm.trans hd)
  · intro ref j hj
    obtain ⟨d, hd, hindex⟩ := hinv.running ref j hj
    have hne : j ≠ i := by
      rintro rfl
      exact hfree ref hj
    exact ⟨d, (Function.update_of_ne hne c t.configs).trans hd, hindex⟩

/-- A context starts with a complete configuration. -/
theorem Table.Inv.start (hinv : t.Inv) (hfree : ∀ ref, t.contexts ref ≠ some i) {c : Config}
    (hc : c.offset ≤ c.totalLen) (hindex : c.index = 0) (ref : Fin n) (hex : List UInt8) (len : ℕ) :
    (⟨Function.update t.configs i (some c), Function.update t.contexts ref (some i), hex, len⟩ : Table n).Inv := by
  have hset := hinv.setConfig hfree (some c) fun c' h => Option.some.inj h ▸ hc
  refine ⟨hset.within, ?_, ?_⟩
  · intro ref' j hj
    by_cases href : ref' = ref
    · rw [href] at hj
      obtain rfl := Option.some.inj ((Function.update_self ref (some i) t.contexts).symm.trans hj)
      exact ⟨c, Function.update_self i (some c) t.configs, hindex⟩
    · exact hset.running ref' j ((Function.update_of_ne href (some i) t.contexts).symm.trans hj)
  · refine hinv.single.insert fun ref' j _ hj hkey => hfree ref' ?_
    rw [hj]
    exact congrArg some hkey

/-- The end of a context empties its entry alone. -/
theorem Table.Inv.ended (hinv : t.Inv) (ref : Fin n) : (onetAtPumpExit ref t).Inv := by
  unfold onetAtPumpExit
  cases href : t.contexts ref with
  | none => exact hinv
  | some i =>
    refine ⟨?_, ?_, hinv.single.remove ref⟩
    · intro j d hd
      by_cases hj : j = i
      · rw [hj] at hd
        exact nomatch (Function.update_self i none t.configs).symm.trans hd
      · exact hinv.within j d ((Function.update_of_ne hj none t.configs).symm.trans hd)
    · intro ref' j hj
      by_cases hne : ref' = ref
      · rw [hne] at hj
        exact nomatch (Function.update_self ref none t.contexts).symm.trans hj
      · have hj' : t.contexts ref' = some j := (Function.update_of_ne hne none t.contexts).symm.trans hj
        obtain ⟨d, hd, hindex⟩ := hinv.running ref' j hj'
        have hji : j ≠ i := by
          rintro rfl
          exact hne (hinv.single ref' ref j j hj' href rfl)
        exact ⟨d, (Function.update_of_ne hji none t.configs).trans hd, hindex⟩

theorem Taken.next {old : Config} {o : Outcome n} (h : Taken f i t old o) {t' : Table n} (ht' : o.next = some t') :
    (∀ j, j ≠ i → t'.configs j = t.configs j) ∧ ∀ ref j, t.contexts ref = some j → t'.contexts ref = some j := by
  have hset : ∀ {c : Option Config} {s : Table n},
      some ({ t with configs := Function.update t.configs i c } : Table n) = some s →
      (∀ j, j ≠ i → s.configs j = t.configs j) ∧ ∀ ref j, t.contexts ref = some j → s.contexts ref = some j := by
    intro c s hs
    cases hs
    exact ⟨fun j hj => Function.update_of_ne hj c t.configs, fun ref j href => href⟩
  cases h with
  | stored => exact hset ht'
  | failed code => exact hset ht'
  | initFailed hindex hall => exact hset ht'
  | started ref hindex hall hfree =>
    unfold OnenetConfig.started at ht'
    split at ht'
    next =>
      cases ht'
      refine ⟨fun j hj => Function.update_of_ne hj _ t.configs, fun ref' j href => ?_⟩
      have hne : ref' ≠ ref := by
        rintro rfl
        exact nomatch hfree.symm.trans href
      exact (Function.update_of_ne hne _ t.contexts).trans href
    next => exact nomatch ht'

theorem Taken.inv {old : Config} {o : Outcome n} (h : Taken f i t old o) (hinv : t.Inv)
    (hfree : ∀ ref, t.contexts ref ≠ some i) (hfit : old.offset + f.currentsize ≤ old.totalLen) {t' : Table n}
    (ht' : o.next = some t') : t'.Inv := by
  have hwithin : (old.append f).offset ≤ (old.append f).totalLen := by
    rw [(append_fits hfit).1]
    exact hfit
  have hempty : ({ t with configs := Function.update t.configs i none } : Table n).Inv :=
    hinv.setConfig hfree none fun _ h => nomatch h
  cases h with
  | stored =>
    cases ht'
    exact hinv.setConfig hfree _ fun c hc => Option.some.inj hc ▸ hwithin
  | failed code =>
    cases ht'
    exact hempty
  | initFailed hindex hall =>
    cases ht'
    exact hempty
  | started ref hindex hall hnone =>
    unfold OnenetConfig.started at ht'
    split at ht'
    next =>
      cases ht'
      exact hinv.start hfree hwithin hindex ref _ _
    next => exact nomatch ht'

theorem Table.Inv.step (hinv : t.Inv) (hgood : ¬OpensTooLong e t) {t' : Table n} (h : step e t = some t') : t'.Inv := by
  have hreacts := react_reacts e t
  unfold OnenetConfig.step at h
  generalize react e t = o at hreacts h
  cases hreacts with
  | refused r initOk code _ =>
    cases h
    exact hinv
  | ended ref =>
    cases h
    exact hinv.ended ref
  | taken initOk hf hi ho => exact ho.inv hinv (fun ref => not_running hinv hi) (fits_of hgood hf hi) h

theorem keepsRunning (hinv : t.Inv) (e : Event n) : KeepsRunning e t := by
  cases e with
  | ended ref => trivial
  | request r initOk =>
    intro ref j href t' ht'
    have hreacts := react_reacts (.request r initOk) t
    change (react (.request r initOk) t).next = some t' at ht'
    generalize react (.request r initOk) t = o at hreacts ht'
    cases hreacts with
    | refused _ _ code _ =>
      cases ht'
      exact ⟨rfl, href⟩
    | taken _ hf hi ho =>
      obtain ⟨hconfigs, hcontexts⟩ := ho.next ht'
      refine ⟨hconfigs j ?_, hcontexts ref j href⟩
      rintro rfl
      exact not_running hinv hi href

/-- A fragment is copied to the entry as it was before, or to a new one. -/
theorem Taken.write {old : Config} {o : Outcome n} (h : Taken f i t old o) :
    o.write = some ⟨old.offset, old.totalLen, f⟩ := by
  cases h with
  | stored => rfl
  | failed code => rfl
  | initFailed hindex hall => rfl
  | started ref hindex hall hfree => rfl

theorem writes_within (hgood : ¬OpensTooLong e t) {w : Write} (hw : (react e t).write = some w) :
    w.start + w.fragment.currentsize ≤ w.totalLen := by
  have hreacts := react_reacts e t
  generalize react e t = o at hreacts hw
  cases hreacts with
  | refused r initOk code _ => exact nomatch hw
  | ended ref => exact nomatch hw
  | taken initOk hf hi ho =>
    obtain rfl := Option.some.inj (ho.write.symm.trans hw)
    exact fits_of hgood hf hi

/-- Where the condition fails, the copy leaves the block. -/
theorem writes_behind (hbad : OpensTooLong e t) :
    ∃ w, (react e t).write = some w ∧ w.totalLen < w.start + w.fragment.currentsize := by
  cases e with
  | ended ref => exact hbad.elim
  | request r initOk =>
    obtain ⟨⟨j, hj⟩, f, hf, hlong⟩ := hbad
    have hreacts := react_reacts (.request r initOk) t
    generalize react (.request r initOk) t = o at hreacts
    cases hreacts with
    | refused _ _ code hfull => exact absurd hj (hfull f hf j)
    | taken _ hg hi ho =>
      obtain rfl := Option.some.inj (hf.symm.trans hg)
      obtain hnone | ⟨c, -, hcont⟩ := hi
      · refine ⟨_, ho.write, ?_⟩
        rw [hnone, Option.getD_none]
        change (Config.new f).totalLen < 0 + f.currentsize
        rw [new_totalLen]
        omega
      · rw [not_continuedBy hlong] at hcont
        exact nomatch hcont

/-! ### Whole histories -/

/-- Of each entry and of each call of `onet_init` the places of its fragments; no two of them share one. -/
structure History (tr : List (Outcome n)) (reached : Option (Table n)) (owns : Fin n ⊕ ℕ → List ℕ) : Prop where
  apart : ∀ a b, a ≠ b → List.Disjoint (owns a) (owns b)
  old : ∀ a, ∀ p ∈ owns a, p < tr.length
  later : ∀ q, tr.length ≤ q → owns (.inr q) = []
  inits : ∀ q, ∀ c ∈ initAt tr q, (owns (.inr q)).getLast? = some q ∧
    ∃ fragments, AssembledFrom tr (owns (.inr q)) c.totalLen 0 c.configHex fragments
  live : ∀ t ∈ reached, ∀ i, ∀ c ∈ t.configs i, c.index ≠ 0 →
    ∃ fragments, AssembledFrom tr (owns (.inl i)) c.totalLen c.index (c.configHex.take c.offset) fragments

theorem history_init : History [] (some (Table.init : Table n)) fun _ => [] := by
  refine ⟨fun _ _ _ p hp => (nomatch hp), fun _ _ hp => (nomatch hp), fun _ _ => rfl, fun q c hc => (nomatch hc), ?_⟩
  intro t ht i c hc
  cases ht
  exact nomatch hc

variable {tr : List (Outcome n)} {owns owns' : Fin n ⊕ ℕ → List ℕ} {o : Outcome n}

/-- The owner `k` takes over the places of `a` and the newest one. -/
theorem History.extend (h : History tr (some t) owns) {a k : Fin n ⊕ ℕ}
    (hnew : ∀ q, k = .inr q ∨ a = .inr q → q = tr.length) (hk : ∀ p ∈ owns' k, p = tr.length ∨ p ∈ owns a)
    (hgone : k ≠ a → owns' a = []) (hother : ∀ b, b ≠ k → b ≠ a → owns' b = owns b)
    (hinit : ∀ c ∈ o.onetInit, (owns' (.inr tr.length)).getLast? = some tr.length ∧
      ∃ fragments, AssembledFrom (tr ++ [o]) (owns' (.inr tr.length)) c.totalLen 0 c.configHex fragments)
    (hlive : ∀ t' ∈ o.next, ∀ i, ∀ c ∈ t'.configs i, c.index ≠ 0 →
      ∃ fragments, AssembledFrom (tr ++ [o]) (owns' (.inl i)) c.totalLen c.index (c.configHex.take c.offset) fragments) :
    History (tr ++ [o]) o.next owns' := by
  have hlen : (tr ++ [o]).length = tr.length + 1 := List.length_append
  -- what another owner has, it had before, and `a` had none of it
  have hrest : ∀ b, b ≠ k → ∀ p ∈ owns' b, p ∈ owns b ∧ b ≠ a := by
    intro b hb p hp
    by_cases hba : b = a
    · rw [hba, hgone fun hka => hb (hba.trans hka.symm)] at hp
      exact nomatch hp
    · rw [hother b hb hba] at hp
      exact ⟨hp, hba⟩
  have hknew : ∀ b, b ≠ k → List.Disjoint (owns' k) (owns' b) := by
    intro b hb p hpk hpb
    obtain ⟨hpb, hba⟩ := hrest b hb p hpb
    obtain rfl | hpa := hk p hpk
    · exact Nat.lt_irrefl _ (h.old b _ hpb)
    · exact h.apart a b (Ne.symm hba) hpa hpb
  refine ⟨?_, ?_, ?_, ?_, hlive⟩
  · intro b b' hne
    by_cases hb : b = k
    · rw [hb]
      exact hknew b' fun hb' => hne (hb.trans hb'.symm)
    · by_cases hb' : b' = k
      · rw [hb']
        exact fun p hp hp' => hknew b hb hp' hp
      · exact fun p hp hp' => h.apart b b' hne (hrest b hb p hp).1 (hrest b' hb' p hp').1
  · intro b p hp
    rw [hlen]
    by_cases hb : b = k
    · rw [hb] at hp
      obtain rfl | hpa := hk p hp
      · exact Nat.lt_succ_self _
      · exact Nat.lt_succ_of_lt (h.old a p hpa)
    · exact Nat.lt_succ_of_lt (h.old b p (hrest b hb p hp).1)
  · intro q hq
    rw [hlen] at hq
    have hk' : (.inr q : Fin n ⊕ ℕ) ≠ k := fun heq => by
      have hq' := hnew q (.inl heq.symm)
      omega
    have ha' : (.inr q : Fin n ⊕ ℕ) ≠ a := fun heq => by
      have hq' := hnew q (.inr heq.symm)
      omega
    rw [hother _ hk' ha']
    exact h.later q (Nat.le_of_succ_le hq)
  · intro q c hc
    obtain hlt | hge := Nat.lt_or_ge q tr.length
    · have hk' : (.inr q : Fin n ⊕ ℕ) ≠ k := fun heq => by
        have hq' := hnew q (.inl heq.symm)
        omega
      have ha' : (.inr q : Fin n ⊕ ℕ) ≠ a := fun heq => by
        have hq' := hnew q (.inr heq.symm)
        omega
      rw [initAt, List.getElem?_append_left hlt] at hc
      obtain ⟨hlast, fragments, hfrom⟩ := h.inits q c hc
      rw [hother _ hk' ha']
      exact ⟨hlast, fragments, hfrom.append [o]⟩
    · obtain rfl | hgt := Nat.eq_or_lt_of_le hge
      · rw [initAt, List.getElem?_append_right (Nat.le_refl _), Nat.sub_self, List.getElem?_cons_zero,
          Option.bind_some] at hc
        exact hinit c hc
      · rw [initAt, List.getElem?_eq_none (hlen ▸ hgt)] at hc
        exact nomatch hc

/-- A step that accepts no fragment. -/
theorem History.keep (h : History tr (some t) owns) (hinit : o.onetInit = none)
    (hconfigs : ∀ t' ∈ o.next, ∀ i, ∀ c ∈ t'.configs i, c ∈ t.configs i) : History (tr ++ [o]) o.next owns := by
  refine h.extend (fun q hq => (hq.elim Sum.inr.inj Sum.inr.inj).symm) (k := .inr tr.length) (fun p hp => .inr hp)
    (fun hne => absurd rfl hne) (fun b _ _ => rfl) (fun c hc => ?_) fun t' ht' i c hc hindex => ?_
  · rw [hinit] at hc
    exact nomatch hc
  · obtain ⟨fragments, hfrom⟩ := h.live t rfl i c (hconfigs t' ht' i c hc) hindex
    exact ⟨fragments, hfrom.append [o]⟩

/-- The fragments of the entry before the step and the new one. -/
theorem History.takes (h : History tr (some t) owns) {old : Config}
    (hi : t.configs i = none ∨ ∃ c, t.configs i = some c ∧ c.continuedBy f = true)
    (hold : (t.configs i).getD (Config.new f) = old) (hfit : old.offset + f.currentsize ≤ old.totalLen)
    (hwrite : o.write = some ⟨old.offset, old.totalLen, f⟩) :
    ∃ places fragments, (∀ p ∈ places, p = tr.length ∨ p ∈ owns (.inl i)) ∧ places.getLast? = some tr.length ∧
      AssembledFrom (tr ++ [o]) places (old.append f).totalLen f.index
        ((old.append f).configHex.take (old.append f).offset) fragments := by
  obtain ⟨htotal, hbytes⟩ := append_fits hfit
  obtain ⟨before, fragments, hbefore, hsize, hfrom⟩ : ∃ before fragments, (∀ p ∈ before, p ∈ owns (.inl i)) ∧
      f.totalsize = old.totalLen ∧
      AssembledFrom tr before old.totalLen (f.index + 1) (old.configHex.take old.offset) fragments := by
    obtain hnone | ⟨c, hc, hcont⟩ := hi
    · rw [hnone, Option.getD_none] at hold
      subst hold
      exact ⟨[], [], fun p hp => (nomatch hp), (new_totalLen f).symm, assembledFrom_nil tr _ _⟩
    · rw [hc, Option.getD_some] at hold
      subst hold
      obtain ⟨hsize, hindex, -⟩ := continuedBy_iff.mp hcont
      obtain ⟨fragments, hfrom⟩ := h.live t rfl i c hc (by omega)
      rw [hindex] at hfrom
      exact ⟨owns (.inl i), fragments, fun p hp => hp, hsize.symm, hfrom⟩
  refine ⟨before ++ [tr.length], fragments ++ [f], ?_, List.getLast?_concat, ?_⟩
  · intro p hp
    obtain hp | hp := List.mem_append.mp hp
    · exact .inr (hbefore p hp)
    · exact .inl (List.mem_singleton.mp hp)
  · rw [htotal, hbytes]
    exact hfrom.snoc hsize hwrite rfl

theorem History.taken (h : History tr (some t) owns) (hi : t.configs i = none ∨ ∃ c, t.configs i = some c ∧ c.continuedBy f = true)
    (hfit : ((t.configs i).getD (Config.new f)).offset + f.currentsize ≤ ((t.configs i).getD (Config.new f)).totalLen)
    (ho : Taken f i t ((t.configs i).getD (Config.new f)) o) : ∃ owns', History (tr ++ [o]) o.next owns' := by
  obtain ⟨places, fragments, hplaces, hlast, hfrom⟩ := h.takes hi rfl hfit ho.write
  generalize (t.configs i).getD (Config.new f) = old at hfrom ho hfit
  have hothers : ∀ (c : Option Config) (j : Fin n) (d : Config), Function.update t.configs i c j = some d →
      (j = i ∧ c = some d) ∨ (j ≠ i ∧ t.configs j = some d) := by
    intro c j d hd
    by_cases hj : j = i
    · subst hj
      exact .inl ⟨rfl, (Function.update_self j c t.configs).symm.trans hd⟩
    · exact .inr ⟨hj, (Function.update_of_ne hj c t.configs).symm.trans hd⟩
  have hentries : ∀ {owns' : Fin n ⊕ ℕ → List ℕ} {j : Fin n} {d : Config}, j ≠ i → owns' (.inl j) = owns (.inl j) →
      t.configs j = some d → d.index ≠ 0 →
      ∃ fragments, AssembledFrom (tr ++ [o]) (owns' (.inl j)) d.totalLen d.index (d.configHex.take d.offset) fragments := by
    intro owns' j d _ hsame hd hindex
    obtain ⟨fragments, hfrom⟩ := h.live t rfl j d hd hindex
    rw [hsame]
    exact ⟨fragments, hfrom.append [o]⟩
  by_cases hinit : o.onetInit = none
  · -- the entry keeps its fragments or is emptied
    have hself : Function.update owns (.inl i) places (.inl i) = places := Function.update_self _ _ _
    refine ⟨Function.update owns (.inl i) places, h.extend (a := .inl i) (k := .inl i) ?_ ?_ ?_ ?_ ?_ ?_⟩
    · rintro q (hq | hq)
      · cases hq
      · cases hq
    · rw [hself]
      exact hplaces
    · exact fun hne => absurd rfl hne
    · exact fun b hb _ => Function.update_of_ne hb _ _
    · intro c hc
      rw [hinit] at hc
      exact nomatch hc
    · intro t' ht' j d hd hindex
      by_cases hj : j = i
      · subst hj
        rw [hself]
        cases ho with
        | stored =>
          cases ht'
          obtain ⟨-, hd⟩ | ⟨hne, -⟩ := hothers _ j d hd
          · obtain rfl := Option.some.inj hd
            exact ⟨fragments, hfrom⟩
          · exact absurd rfl hne
        | failed code =>
          cases ht'
          obtain ⟨-, hd⟩ | ⟨hne, -⟩ := hothers _ j d hd
          · exact nomatch hd
          · exact absurd rfl hne
        | initFailed _ _ => exact nomatch hinit
        | started _ _ _ _ => exact nomatch hinit
      · exact hentries hj (Function.update_of_ne (fun heq => hj (Sum.inl.inj heq)) _ _)
          (((ho.next ht').1 j hj).symm.trans hd) hindex
  · -- the fragments go to the call
    have hne : (.inr tr.length : Fin n ⊕ ℕ) ≠ .inl i := Sum.inr_ne_inl
    have hself : Function.update (Function.update owns (.inl i) []) (.inr tr.length) places (.inr tr.length) = places :=
      Function.update_self _ _ _
    have hcall : o.onetInit = some (old.append f) ∧ f.index = 0 ∧ (old.append f).totalLen = (old.append f).offset ∧
        ∀ t' ∈ o.next, ∀ d ∈ t'.configs i, d.index = 0 := by
      cases ho with
      | stored => exact absurd rfl hinit
      | failed code => exact absurd rfl hinit
      | initFailed hindex hall =>
        refine ⟨rfl, hindex, hall, fun t' ht' d hd => ?_⟩
        cases ht'
        exact nomatch (Function.update_self i none t.configs).symm.trans hd
      | started ref hindex hall _ =>
        refine ⟨rfl, hindex, hall, fun t' ht' d hd => ?_⟩
        change (OnenetConfig.started _ _ _ _ _).next = some t' at ht'
        unfold OnenetConfig.started at ht'
        split at ht'
        next =>
          cases ht'
          obtain rfl := Option.some.inj ((Function.update_self i _ t.configs).symm.trans hd)
          exact hindex
        next => exact nomatch ht'
    obtain ⟨hinit, hindex, hall, hdone⟩ := hcall
    refine ⟨Function.update (Function.update owns (.inl i) []) (.inr tr.length) places,
      h.extend (a := .inl i) (k := .inr tr.length) ?_ ?_ ?_ ?_ ?_ ?_⟩
    · rintro q (hq | hq)
      · exact (Sum.inr.inj hq).symm
      · cases hq
    · rw [hself]
      exact hplaces
    · intro _
      rw [Function.update_of_ne hne.symm, Function.update_self]
    · intro b hb hb'
      rw [Function.update_of_ne hb, Function.update_of_ne hb']
    · intro c hc
      obtain rfl := Option.some.inj (hinit.symm.trans hc)
      rw [hself]
      rw [hindex, ← hall, Config.totalLen, List.take_length] at hfrom
      exact ⟨hlast, fragments, hfrom⟩
    · intro t' ht' j d hd hindex'
      have hj : j ≠ i := by
        rintro rfl
        exact hindex' (hdone t' ht' d hd)
      refine hentries hj ?_ (((ho.next ht').1 j hj).symm.trans hd) hindex'
      rw [Function.update_of_ne Sum.inl_ne_inr, Function.update_of_ne fun heq => hj (Sum.inl.inj heq)]

theorem History.step (h : History tr (some t) owns) (hgood : ¬OpensTooLong e t) :
    ∃ owns', History (tr ++ [react e t]) (react e t).next owns' := by
  have hreacts := react_reacts e t
  generalize react e t = o at hreacts
  cases hreacts with
  | refused r initOk code _ =>
    refine ⟨owns, h.keep rfl fun t' ht' i c hc => ?_⟩
    cases ht'
    exact hc
  | ended ref =>
    refine ⟨owns, h.keep rfl fun t' ht' j c hc => ?_⟩
    cases ht'
    unfold onetAtPumpExit at hc
    cases href : t.contexts ref with
    | none =>
      rw [href] at hc
      exact hc
    | some i =>
      rw [href] at hc
      by_cases hj : j = i
      · rw [hj] at hc
        exact nomatch (Function.update_self i none t.configs).symm.trans hc
      · exact (Function.update_of_ne hj none t.configs).symm.trans hc
  | taken initOk hf hi ho => exact h.taken hi (fits_of hgood hf hi) ho

theorem history {events : List (Event n)} (h : Along step (fun e t => ¬OpensTooLong e t) events Table.init) :
    ∃ owns, History (trace events Table.init) (run step events Table.init) owns := by
  induction events using List.reverseRecOn with
  | nil => exact ⟨_, history_init⟩
  | append_singleton events e ih =>
    obtain ⟨hbefore, hlast⟩ := (along_append step).mp h
    obtain ⟨owns, hhistory⟩ := ih hbefore
    rw [trace_append, run_append]
    cases hrun : run step events Table.init with
    | none =>
      rw [hrun] at hhistory
      rw [Option.map_none, Option.toList_none, List.append_nil, Option.bind_none]
      exact ⟨owns, hhistory⟩
    | some t =>
      rw [hrun] at hhistory
      obtain ⟨owns', hnext⟩ := hhistory.step (hlast t hrun).1
      have hstep : run OnenetConfig.step [e] t = (react e t).next := by
        rw [run_cons, OnenetConfig.step]
        cases (react e t).next with
        | none => rfl
        | some t' => rfl
      rw [Option.map_some, Option.toList_some, Option.bind_some, hstep]
      exact ⟨owns', hnext⟩

/-! ### The result -/

theorem inv_of_run {events : List (Event n)} {t : Table n}
    (h : Along step (fun e t => ¬OpensTooLong e t) events Table.init) (hrun : run step events Table.init = some t) :
    t.Inv :=
  run_invariant (fun _ _ _ hinv hgood hstep => hinv.step hgood hstep) inv_init h hrun

/-- The states that a history passes through meet the condition too. -/
theorem along_before {events before : List (Event n)} {e : Event n} {t : Table n} {P : Event n → Table n → Prop}
    (h : Along step P events Table.init) (hbegin : (before ++ [e]) <+: events)
    (hrun : run step before Table.init = some t) : Along step P before Table.init ∧ P e t := by
  obtain ⟨rest, rfl⟩ := hbegin
  obtain ⟨hfront, -⟩ := (along_append step).mp h
  obtain ⟨hbefore, hlast⟩ := (along_append step).mp hfront
  exact ⟨hbefore, (hlast t hrun).1⟩

/-- A history is right exactly when no fragment opens an entry too long. -/
theorem historyOk_iff (events : List (Event n)) :
    HistoryOk events ↔ Along step (fun e t => ¬OpensTooLong e t) events Table.init := by
  constructor
  · intro h
    have hbad : ∀ (before rest : List (Event n)), before ++ rest = events → ∀ t, run step before Table.init = some t →
        Along step (fun e t => ¬OpensTooLong e t) rest t := by
      intro before rest
      induction rest generalizing before with
      | nil => exact fun _ _ _ => trivial
      | cons e rest ih =>
        intro hevents t hrun
        have hsplit : (before ++ [e]) ++ rest = events := by rw [List.append_assoc, List.singleton_append, hevents]
        have hgood : ¬OpensTooLong e t := by
          intro hlong
          obtain ⟨w, hw, hbehind⟩ := writes_behind hlong
          have hmem : react e t ∈ trace events Table.init := by
            rw [← hsplit]
            exact mem_trace_append (by rw [trace_append, hrun]; exact List.mem_append_right _ (List.mem_singleton_self _))
          have hle := h.writes _ hmem w hw
          omega
        refine ⟨hgood, fun t' ht' => ih (before ++ [e]) hsplit t' ?_⟩
        rw [run_append, hrun, Option.bind_some, run_cons, ht', Option.bind_some, run_nil]
    exact hbad [] events rfl Table.init rfl
  · intro h
    have hinv : ∀ {before : List (Event n)} {e : Event n} {t : Table n}, (before ++ [e]) <+: events →
        run step before Table.init = some t → t.Inv ∧ ¬OpensTooLong e t := by
      intro before e t hbegin hrun
      obtain ⟨hbefore, hgood⟩ := along_before h hbegin hrun
      exact ⟨inv_of_run hbefore hrun, hgood⟩
    refine ⟨?_, ?_, ?_, ?_⟩
    · intro o ho w hw
      obtain ⟨before, e, t, hbegin, hrun, rfl⟩ := mem_trace ho
      exact writes_within (hinv hbegin hrun).2 hw
    · intro o ho t' ht' i c hc
      obtain ⟨before, e, t, hbegin, hrun, rfl⟩ := mem_trace ho
      obtain ⟨ht, hgood⟩ := hinv hbegin hrun
      exact (ht.step hgood ht').within i c hc
    · exact along_imp (fun e t ht _ => keepsRunning ht e) (fun e t t' ht hgood => ht.step hgood) inv_init h
    · obtain ⟨owns, hhistory⟩ := history h
      refine ⟨fun q => owns (.inr q), hhistory.inits, fun q q' hne => hhistory.apart _ _ ?_⟩
      exact fun heq => hne (Sum.inr.inj heq)

/-- One byte is announced and two are sent. -/
def longRequest : Request := ⟨1, [0x36, 0x31, 0x36, 0x32], 0, 2, 1⟩

theorem longRequest_fragment : longRequest.fragment = some ⟨1, [0x61, 0x62], 0, 1⟩ := by decide

theorem not_historyOk : ¬HistoryOk [(Event.request longRequest true : Event 1)] := by
  intro h
  have hlong : OpensTooLong (Event.request longRequest true) (Table.init : Table 1) :=
    ⟨⟨0, rfl⟩, _, longRequest_fragment, by decide⟩
  obtain ⟨w, hw, hbehind⟩ := writes_behind hlong
  have hle := h.writes _ List.mem_cons_self w hw
  omega

end NbiotXY1100.OnenetConfig
