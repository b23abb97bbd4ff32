import Mathlib.Data.List.Forall2
import Mathlib.Tactic.Push
import NbiotXY1100.ArrayPlaces
import NbiotXY1100.CdpBackup

/-! # What a CDP registration is after backup and resume

The resume makes a watcher only for a resource that has none, and the format is not in the record. So
a registration comes back exactly when every resource has one watcher at most, and that one uses the
format `XY_LWM2M_CONTENT_TEXT`. Neither loop of the backup looks at the size of its array. -/
namespace NbiotXY1100.CdpBackup
open ByteBuffers CStrings ArrayPlaces

/-! ### The loops of the backup -/

/-- The place of one observed resource. -/
def backupOf (observed : Observed) : BackupObserved where
  uri := observed.uri
  watherCount := observed.watcherList.length
  watcherList := observed.watcherList.map (backupWatcher · .zero) ++
    List.replicate (watcherpMax - observed.watcherList.length) .zero

@[simp] theorem backupOf_uri (observed : Observed) : (backupOf observed).uri = observed.uri := rfl

theorem bakWatchers_some (list : List Watcher) {observed : BackupObserved} {done : List BackupWatcher} {k : ℕ}
    (hlist : observed.watcherList = done ++ List.replicate k .zero) (hcount : observed.watherCount = done.length)
    (hall : done.length + k = watcherpMax) (hroom : list.length ≤ k) :
    bakWatchers list observed = some { observed with
      watcherList := done ++ (list.map (backupWatcher · .zero) ++ List.replicate (k - list.length) .zero)
      watherCount := done.length + list.length } := by
  induction list generalizing observed done k with
  | nil =>
    simp only [List.map_nil, List.nil_append, List.length_nil, Nat.sub_zero, Nat.add_zero, ← hlist, ← hcount]
    rfl
  | cons watcher list ih =>
    rw [List.length_cons] at hroom
    obtain ⟨k, rfl⟩ : ∃ m, k = m + 1 := ⟨k - 1, by omega⟩
    have hplace : ¬ watcherpMax ≤ observed.watherCount := by omega
    have hmodify : observed.watcherList.modify observed.watherCount (backupWatcher watcher) =
        done ++ [backupWatcher watcher .zero] ++ List.replicate k .zero := by
      rw [hlist, hcount, List.replicate_succ, modify_append, List.append_assoc]
      rfl
    have hdone : (done ++ [backupWatcher watcher .zero]).length = done.length + 1 := by simp
    rw [bakWatchers, if_neg hplace, ih hmodify (by simp only; omega) (by omega) (by omega)]
    simp only [hdone, List.length_cons, List.map_cons, List.append_assoc, List.cons_append, List.nil_append,
      Nat.add_assoc, Nat.add_comm 1, Nat.add_sub_add_right]

theorem bakWatchers_none (list : List Watcher) {observed : BackupObserved}
    (hfull : watcherpMax < observed.watherCount + list.length) (hcount : observed.watherCount ≤ watcherpMax) :
    bakWatchers list observed = none := by
  induction list generalizing observed with
  | nil =>
    rw [List.length_nil] at hfull
    omega
  | cons watcher list ih =>
    rw [List.length_cons] at hfull
    rw [bakWatchers]
    split
    · rfl
    · next hplace => exact ih (by simp only; omega) (by simp only; omega)

theorem bakWatchers_start (observed : Observed) (hroom : observed.watcherList.length ≤ watcherpMax) :
    bakWatchers observed.watcherList ⟨observed.uri, 0, List.replicate watcherpMax .zero⟩ = some (backupOf observed) := by
  rw [@bakWatchers_some observed.watcherList ⟨observed.uri, 0, List.replicate watcherpMax .zero⟩ [] watcherpMax
    rfl rfl (Nat.zero_add _) hroom]
  simp only [List.nil_append, List.length_nil, Nat.zero_add, backupOf]

theorem bakObserved_some (list : List Observed) (hwatchers : ∀ o ∈ list, o.watcherList.length ≤ watcherpMax)
    {info : RegInfo} {done : List BackupObserved} {k : ℕ}
    (hobserved : info.observed = done ++ List.replicate k .zero) (hcount : info.observedCount = done.length)
    (hall : done.length + k = observeMax) (hroom : list.length ≤ k) :
    bakObserved list info = some { info with
      observed := done ++ (list.map backupOf ++ List.replicate (k - list.length) .zero)
      observedCount := done.length + list.length } := by
  induction list generalizing info done k with
  | nil =>
    simp only [List.map_nil, List.nil_append, List.length_nil, Nat.sub_zero, Nat.add_zero, ← hobserved, ← hcount]
    rfl
  | cons observed list ih =>
    rw [List.length_cons] at hroom
    obtain ⟨k, rfl⟩ : ∃ m, k = m + 1 := ⟨k - 1, by omega⟩
    have hplace : ¬ observeMax ≤ info.observedCount := by omega
    have hset : info.observed.set info.observedCount (backupOf observed) =
        done ++ [backupOf observed] ++ List.replicate k .zero := by
      rw [hobserved, hcount, List.set_append_right _ _ (Nat.le_refl _), Nat.sub_self, List.replicate_succ,
        List.append_assoc]
      rfl
    have hdone : (done ++ [backupOf observed]).length = done.length + 1 := by simp
    rw [bakObserved, if_neg hplace, bakWatchers_start observed (hwatchers observed (List.mem_cons_self ..))]
    simp only
    rw [ih (fun o h => hwatchers o (List.mem_cons_of_mem _ h)) hset (by simp only; omega) (by omega) (by omega)]
    simp only [hdone, List.length_cons, List.map_cons, List.append_assoc, List.cons_append, List.nil_append,
      Nat.add_assoc, Nat.add_comm 1, Nat.add_sub_add_right]

theorem bakObserved_none (list : List Observed) {info : RegInfo} (hcount : info.observedCount ≤ observeMax)
    (hfull : observeMax < info.observedCount + list.length ∨ ∃ o ∈ list, watcherpMax < o.watcherList.length) :
    bakObserved list info = none := by
  induction list generalizing info with
  | nil =>
    obtain hfull | ⟨o, ho, -⟩ := hfull
    · rw [List.length_nil] at hfull
      omega
    · exact absurd ho List.not_mem_nil
  | cons observed list ih =>
    rw [bakObserved]
    split
    · rfl
    · next hplace =>
      by_cases hroom : observed.watcherList.length ≤ watcherpMax
      · rw [bakWatchers_start observed hroom]
        apply ih
        · simp only
          omega
        · obtain hfull | ⟨o, ho, hmany⟩ := hfull
          · rw [List.length_cons] at hfull
            exact .inl (by simp only; omega)
          · obtain rfl | ho := List.mem_cons.mp ho
            · omega
            · exact .inr ⟨o, ho, hmany⟩
      · rw [bakWatchers_none _ (by simp only; omega) (Nat.zero_le _)]

/-! ### What has to come back -/

/-- A watcher without its server. -/
structure WatcherView where
  active : Bool
  update : Bool
  format : MediaType
  token : List UInt8
  lastTime : UInt32
  counter : UInt32
  lastMid : UInt16
  lastValue : UInt64
  deriving DecidableEq, Repr

def viewWatcher (watcher : Watcher) : WatcherView where
  active := watcher.active
  update := watcher.update
  format := watcher.format
  token := watcher.token.take watcher.tokenLen
  lastTime := watcher.lastTime
  counter := watcher.counter
  lastMid := watcher.lastMid
  lastValue := watcher.lastValue

/-- The same watchers, in any order. -/
def SameWatchers (a b : Observed) : Prop :=
  a.uri = b.uri ∧ (a.watcherList.map viewWatcher).Perm (b.watcherList.map viewWatcher)

structure Restored (context resumed : Context) : Prop where
  observed : ∃ list, resumed.observedList.Perm list ∧ List.Forall₂ SameWatchers list context.observedList
  hasServer : resumed.serverList ≠ []
  servers : ∀ server ∈ context.serverList.head?, ∀ target ∈ resumed.serverList,
    target.location = server.location ∧ target.registration = server.registration ∧
      target.lifetime = server.lifetime
  nextMid : resumed.nextMid = context.nextMid

/-- What the client library keeps of a registered context. `cdp_set_endpoint_name` refuses longer
names. -/
structure Registered (context : Context) : Prop where
  ready : context.state = .ready
  endpointName : context.endpointName.length ≤ 255
  server : ∃ server rest, context.serverList = server :: rest ∧ 0 ∉ server.location
  token : ∀ o ∈ context.observedList, ∀ watcher ∈ o.watcherList, watcher.token.length = 8 ∧ watcher.tokenLen ≤ 8
  uris : context.observedList.Pairwise fun a b => sameUri b.uri a.uri = false

structure Fresh (context : Context) : Prop where
  observedList : context.observedList = []
  serverList : context.serverList ≠ []

def ShortLocation (context : Context) : Prop := ∀ server ∈ context.serverList.head?, server.location.length < 63

/-- The arrays have room for everything. -/
def FitsArrays (context : Context) : Prop :=
  context.observedList.length ≤ observeMax ∧ ∀ o ∈ context.observedList, o.watcherList.length ≤ watcherpMax

/-- No write goes past an array of the record; and if everything fits, it comes back. -/
def BackupRestores (connect : UInt16 → Option ℕ) (net : NetInfo) (context fresh : Context) : Prop :=
  cdpBakRegInfo net (some context) ≠ .pastArray ∧
    ∀ info cdpNextMid, cdpBakRegInfo net (some context) = .needWrite info cdpNextMid →
      FitsArrays context → ShortLocation context →
        ∃ resumed, cdpResumeRegInfo connect info cdpNextMid fresh = some resumed ∧ Restored context resumed

/-- One watcher at most for each resource, in the format that the record does not hold. -/
def SingleText (context : Context) : Prop :=
  ∀ o ∈ context.observedList, o.watcherList.length ≤ 1 ∧ ∀ watcher ∈ o.watcherList, watcher.format = .contentText

/-! ### One resource -/

def resumedWatcher (server : Option UInt16) (watcher : Watcher) : Watcher :=
  { watcher with
    server := server
    format := .contentText
    token := splice (List.replicate 8 0) 0
      ((splice (List.replicate 8 0) 0 (watcher.token.take 8)).take watcher.tokenLen) }

/-- Only the first watcher comes back. -/
def resumedObserved (server : Option UInt16) (observed : Observed) : Observed :=
  ⟨observed.uri, (observed.watcherList.take 1).map (resumedWatcher server)⟩

theorem foldl_resumeWatcher (server : Option UInt16) (watcher : Watcher) (backups : List BackupWatcher) :
    backups.foldl (resumeWatcher server) [watcher] = [watcher] := by
  induction backups with
  | nil => rfl
  | cons backup backups ih => exact ih

theorem resumeWatchers_backupOf (server : Option UInt16) (observed : Observed) :
    resumeWatchers server (backupOf observed) ⟨observed.uri, []⟩ = resumedObserved server observed := by
  have htake : (backupOf observed).watcherList.take (backupOf observed).watherCount =
      observed.watcherList.map (backupWatcher · .zero) := List.take_left' (List.length_map _)
  rw [resumeWatchers, htake, resumedObserved]
  cases observed.watcherList with
  | nil => rfl
  | cons watcher rest =>
    have hfirst : resumeWatcher server [] (backupWatcher watcher .zero) = [resumedWatcher server watcher] := rfl
    simp only [List.map_cons, List.foldl_cons, hfirst, foldl_resumeWatcher]
    rfl

theorem viewWatcher_resumedWatcher (server : Option UInt16) {watcher : Watcher} (htoken : watcher.token.length = 8)
    (hlen : watcher.tokenLen ≤ 8) :
    viewWatcher (resumedWatcher server watcher) = { viewWatcher watcher with format := .contentText } := by
  have hall : splice (List.replicate 8 0) 0 (watcher.token.take 8) = watcher.token := by
    rw [List.take_of_length_le (Nat.le_of_eq htoken), splice, htoken]
    simp
  rw [← htoken] at hlen
  simp only [viewWatcher, resumedWatcher, hall, splice_zero_take hlen]

theorem sameUri_self (uri : Uri) : sameUri uri uri = true := by
  simp [sameUri]

/-- A resource that has no entry gets one at the head. -/
theorem resumeObserved_new (server : Option UInt16) {list : List Observed} (observed : Observed)
    (hnew : ∀ target ∈ list, sameUri observed.uri target.uri = false) :
    resumeObserved server list (backupOf observed) = resumedObserved server observed :: list := by
  have hany : ¬ (list.any fun target => sameUri (backupOf observed).uri target.uri) = true := by simpa using hnew
  have hmodify := @modify_findIdx Observed (fun target => sameUri observed.uri target.uri) []
    (fun _ h => absurd h List.not_mem_nil) ⟨observed.uri, []⟩ (sameUri_self observed.uri) list
    (resumeWatchers server (backupOf observed))
  rw [resumeWatchers_backupOf] at hmodify
  simp only [resumeObserved]
  rw [if_neg hany]
  exact hmodify

theorem foldl_resumeObserved (server : Option UInt16) (list : List Observed) {acc : List Observed}
    (huris : list.Pairwise fun a b => sameUri b.uri a.uri = false)
    (hacc : ∀ o ∈ list, ∀ target ∈ acc, sameUri o.uri target.uri = false) :
    (list.map backupOf).foldl (resumeObserved server) acc = (list.map (resumedObserved server)).reverse ++ acc := by
  induction list generalizing acc with
  | nil => rfl
  | cons o list ih =>
    obtain ⟨hfirst, hrest⟩ := List.pairwise_cons.mp huris
    rw [List.map_cons, List.foldl_cons, resumeObserved_new server o (hacc o (List.mem_cons_self ..)), ih hrest]
    · simp
    · intro o' ho' target htarget
      obtain rfl | htarget := List.mem_cons.mp htarget
      · exact hfirst o' ho'
      · exact hacc o' (List.mem_cons_of_mem _ ho') target htarget

/-! ### The servers -/

theorem resumeLocation_cdpBakSvrInfo (net : NetInfo) {server : Server} (info : RegInfo) (hnul : 0 ∉ server.location)
    (hlen : server.location.length < 63) : resumeLocation (cdpBakSvrInfo net server info) = server.location := by
  have hnum : min (server.location.length + 1) 63 = server.location.length + 1 := Nat.min_eq_left hlen
  have hall : server.location.length + 1 ≤ (server.location ++ [0]).length := by simp
  simp only [resumeLocation, cdpBakSvrInfo, hnum]
  rw [splice_zero_take hall, List.take_of_length_le (by simp), List.append_assoc]
  exact cString_append_nul hnul [0]

theorem resumeServers_some {connect : UInt16 → Option ℕ} (hconnect : ∀ id, (connect id).isSome) (info : RegInfo)
    (list : List Server) : ∃ list', resumeServers connect info list = some list' ∧ list'.length = list.length ∧
      ∀ target ∈ list', target.location = resumeLocation info ∧ target.registration = info.regtime ∧
        target.lifetime = info.lifetime := by
  induction list with
  | nil => exact ⟨[], rfl, rfl, by simp⟩
  | cons server list ih =>
    obtain ⟨list', hlist, hlen, hall⟩ := ih
    obtain ⟨sessionH, hsession⟩ := Option.isSome_iff_exists.mp (hconnect server.secObjInstID)
    refine ⟨_, by rw [resumeServers, hsession, hlist]; rfl, by simp [hlen], ?_⟩
    intro target htarget
    obtain rfl | htarget := List.mem_cons.mp htarget
    · exact ⟨rfl, rfl, rfl⟩
    · exact hall target htarget

/-! ### The result -/

/-- What the record holds after a backup in which everything fits. -/
theorem cdpBakRegInfo_fits (net : NetInfo) {context : Context} {server : Server} {rest : List Server}
    (hctx : Registered context) (hserver : context.serverList = server :: rest) (hfits : FitsArrays context) :
    ∃ info, cdpBakRegInfo net (some context) = .needWrite (cdpBakSvrInfo net server info) context.nextMid ∧
      info.observed.take info.observedCount = context.observedList.map backupOf := by
  have hready : ¬ context.state ≠ .ready := not_not.mpr hctx.ready
  have hname : ¬ 256 < context.endpointName.length := by
    have := hctx.endpointName
    omega
  simp only [cdpBakRegInfo, hserver, cdpBakObsvInfo]
  rw [if_neg hready, if_neg hname, @bakObserved_some _ hfits.2 _ [] observeMax rfl rfl (Nat.zero_add _) hfits.1]
  refine ⟨_, rfl, ?_⟩
  simp only [List.nil_append, List.length_nil, Nat.zero_add]
  exact List.take_left' (List.length_map _)

theorem cdpBakRegInfo_pastArray (net : NetInfo) {context : Context} (hctx : Registered context)
    (hfits : ¬ FitsArrays context) : cdpBakRegInfo net (some context) = .pastArray := by
  have hready : ¬ context.state ≠ .ready := not_not.mpr hctx.ready
  have hname : ¬ 256 < context.endpointName.length := by
    have := hctx.endpointName
    omega
  have hfull : observeMax < 0 + context.observedList.length ∨
      ∃ o ∈ context.observedList, watcherpMax < o.watcherList.length := by
    rw [FitsArrays, not_and_or] at hfits
    push Not at hfits
    rwa [Nat.zero_add]
  simp only [cdpBakRegInfo, cdpBakObsvInfo]
  rw [if_neg hready, if_neg hname, bakObserved_none _ (Nat.zero_le _) hfull]

/-- The context that a resume makes of what fits. -/
theorem cdpResumeRegInfo_fits {connect : UInt16 → Option ℕ} (hconnect : ∀ id, (connect id).isSome) (net : NetInfo)
    {context fresh : Context} {server : Server} {rest : List Server} {info : RegInfo} (hctx : Registered context)
    (hserver : context.serverList = server :: rest) (hfresh : Fresh fresh) (hshort : ShortLocation context)
    (hinfo : info.observed.take info.observedCount = context.observedList.map backupOf) :
    ∃ resumed first, cdpResumeRegInfo connect (cdpBakSvrInfo net server info) context.nextMid fresh = some resumed ∧
      resumed.observedList = (context.observedList.map (resumedObserved first)).reverse ∧
      resumed.serverList ≠ [] ∧
      (∀ target ∈ resumed.serverList, target.location = server.location ∧
        target.registration = server.registration ∧ target.lifetime = server.lifetime) ∧
      resumed.nextMid = context.nextMid := by
  have hnul : 0 ∉ server.location := by
    obtain ⟨server', rest', hserver', hnul⟩ := hctx.server
    rw [hserver, List.cons.injEq] at hserver'
    rw [hserver'.1]
    exact hnul
  have hlen : server.location.length < 63 := hshort server (by rw [hserver]; rfl)
  obtain ⟨list, hlist, hcount, hservers⟩ :=
    resumeServers_some hconnect (cdpBakSvrInfo net server info) fresh.serverList
  have hfold := @foldl_resumeObserved (list.head?.map (·.secObjInstID)) context.observedList [] hctx.uris
    (fun _ _ _ h => absurd h List.not_mem_nil)
  simp only [cdpResumeRegInfo, hlist, Option.map_some]
  refine ⟨_, list.head?.map (·.secObjInstID), rfl, ?_, ?_, ?_, rfl⟩
  · simp only [cdpBakSvrInfo, hinfo, hfresh.observedList]
    rw [hfold, List.append_nil]
  · intro (hnil : list = [])
    exact hfresh.serverList (List.length_eq_zero_iff.mp (by rw [← hcount, hnil]; rfl))
  · intro target htarget
    obtain ⟨hlocation, hregistration, hlifetime⟩ := hservers target htarget
    rw [resumeLocation_cdpBakSvrInfo net info hnul hlen] at hlocation
    exact ⟨hlocation, hregistration, hlifetime⟩

/-- One watcher in the text format is the same after the resume. -/
theorem sameWatchers_resumedObserved (first : Option UInt16) {o : Observed}
    (htoken : ∀ watcher ∈ o.watcherList, watcher.token.length = 8 ∧ watcher.tokenLen ≤ 8)
    (hsingle : o.watcherList.length ≤ 1) (htext : ∀ watcher ∈ o.watcherList, watcher.format = .contentText) :
    SameWatchers (resumedObserved first o) o := by
  refine ⟨rfl, List.Perm.of_eq ?_⟩
  rw [resumedObserved, List.take_of_length_le hsingle, List.map_map]
  apply List.map_congr_left
  intro watcher hwatcher
  obtain ⟨hlen, htokenLen⟩ := htoken watcher hwatcher
  have hformat : (viewWatcher watcher).format = .contentText := htext watcher hwatcher
  rw [Function.comp_apply, viewWatcher_resumedWatcher first hlen htokenLen, ← hformat]

/-- A resource with more than one watcher, or with another format, is not. -/
theorem singleText_of_sameWatchers {first : Option UInt16} {o o' : Observed}
    (h : SameWatchers (resumedObserved first o') o) :
    o.watcherList.length ≤ 1 ∧ ∀ watcher ∈ o.watcherList, watcher.format = .contentText := by
  obtain ⟨-, hperm⟩ := h
  constructor
  · have hlength := hperm.length_eq
    simp only [resumedObserved, List.length_map, List.length_take] at hlength
    omega
  · intro watcher hwatcher
    have hmem := hperm.mem_iff.mpr (List.mem_map_of_mem (f := viewWatcher) hwatcher)
    obtain ⟨x, hx, hview⟩ := List.mem_map.mp hmem
    obtain ⟨y, -, rfl⟩ := List.mem_map.mp hx
    exact (congrArg WatcherView.format hview).symm

theorem singleText_of_restored {first : Option UInt16} {context resumed : Context}
    (hobserved : resumed.observedList = (context.observedList.map (resumedObserved first)).reverse)
    (h : Restored context resumed) : SingleText context := by
  obtain ⟨list, hperm, hall⟩ := h.observed
  intro o ho
  -- the entry that is paired with the resource is one that the resume made
  obtain ⟨x, hx, hsame⟩ := exists_of_forall₂ hall ho
  have hmade := hperm.mem_iff.mpr hx
  rw [hobserved, List.mem_reverse] at hmade
  obtain ⟨o', -, rfl⟩ := List.mem_map.mp hmade
  exact singleText_of_sameWatchers hsame

theorem backupRestores_iff {connect : UInt16 → Option ℕ} (hconnect : ∀ id, (connect id).isSome) (net : NetInfo)
    {context fresh : Context} (hctx : Registered context) (hfresh : Fresh fresh) :
    BackupRestores connect net context fresh ↔
      FitsArrays context ∧ (ShortLocation context → SingleText context) := by
  by_cases hfits : FitsArrays context
  · obtain ⟨server, rest, hserver, -⟩ := hctx.server
    obtain ⟨info, hbackup, hinfo⟩ := cdpBakRegInfo_fits net hctx hserver hfits
    constructor
    · rintro ⟨-, hrestores⟩
      refine ⟨hfits, fun hshort => ?_⟩
      obtain ⟨resumed, first, hresume, hobserved, -⟩ :=
        cdpResumeRegInfo_fits hconnect net hctx hserver hfresh hshort hinfo
      obtain ⟨resumed', hresume', hrestored⟩ := hrestores _ _ hbackup hfits hshort
      obtain rfl : resumed = resumed' := Option.some.inj (hresume.symm.trans hresume')
      exact singleText_of_restored hobserved hrestored
    · rintro ⟨-, hsingle⟩
      rw [BackupRestores, hbackup]
      refine ⟨nofun, ?_⟩
      rintro _ _ ⟨⟩ - hshort
      obtain ⟨resumed, first, hresume, hobserved, hne, hservers, hmid⟩ :=
        cdpResumeRegInfo_fits hconnect net hctx hserver hfresh hshort hinfo
      refine ⟨resumed, hresume, ⟨context.observedList.map (resumedObserved first), ?_, ?_⟩, hne, ?_, hmid⟩
      · rw [hobserved]
        exact List.reverse_perm _
      · rw [List.forall₂_map_left_iff, List.forall₂_same]
        exact fun o ho => sameWatchers_resumedObserved first (hctx.token o ho) (hsingle hshort o ho).1
          (hsingle hshort o ho).2
      · intro server' hserver'
        rw [hserver] at hserver'
        obtain rfl := Option.mem_some.mp hserver'
        exact hservers
  · refine iff_of_false ?_ fun h => hfits h.1
    rintro ⟨hpast, -⟩
    exact hpast (cdpBakRegInfo_pastArray net hctx hfits)

/-! ### One watcher -/

def exampleNet : NetInfo := ⟨5683, List.replicate 40 0, 49152, [10, 0, 0, 1]⟩

def exampleFresh : Context := ⟨.initial, .initial, [56, 54], 0, [⟨0, none, .deregistered, 0, 300, []⟩], []⟩

/-- The resource /19/0/0 with one watcher. -/
def exampleContext (format : MediaType) : Context :=
  { exampleFresh with
    state := .ready
    nextMid := 17
    serverList := [⟨0, some 1, .registered, 1000, 86400, [47, 114, 100, 47, 49]⟩]
    observedList := [⟨⟨7, 19, 0, 0⟩, [⟨true, false, some 0, format, [1, 2, 3, 4, 5, 6, 7, 8], 8, 1200, 3, 16, 0⟩]⟩] }

theorem registered_exampleContext (format : MediaType) : Registered (exampleContext format) where
  ready := rfl
  endpointName := by simp [exampleContext, exampleFresh]
  server := ⟨_, [], rfl, by decide⟩
  token := by simp [exampleContext]
  uris := by simp [exampleContext]

theorem fresh_exampleFresh : Fresh exampleFresh := ⟨rfl, List.cons_ne_nil _ _⟩

theorem fitsArrays_exampleContext (format : MediaType) : FitsArrays (exampleContext format) := by
  simp [FitsArrays, exampleContext, observeMax, watcherpMax]

theorem shortLocation_exampleContext (format : MediaType) : ShortLocation (exampleContext format) := by
  simp [ShortLocation, exampleContext]

theorem backupRestores_text :
    BackupRestores (fun _ => some 1) exampleNet (exampleContext .contentText) exampleFresh :=
  (backupRestores_iff (fun _ => rfl) exampleNet (registered_exampleContext _) fresh_exampleFresh).mpr
    ⟨fitsArrays_exampleContext _, fun _ => by simp [SingleText, exampleContext]⟩

/-- The format of a request without the option Accept does not come back. -/
theorem not_alwaysRestores :
    ¬ ∀ (connect : UInt16 → Option ℕ), (∀ id, (connect id).isSome) → ∀ (net : NetInfo) (context fresh : Context),
      Registered context → Fresh fresh → BackupRestores connect net context fresh := by
  intro h
  have hctx := registered_exampleContext .contentTlv
  have hshort := shortLocation_exampleContext .contentTlv
  obtain ⟨info, hbackup, hinfo⟩ := cdpBakRegInfo_fits exampleNet hctx rfl (fitsArrays_exampleContext _)
  have hconnect : ∀ id : UInt16, (some 1 : Option ℕ).isSome := fun _ => rfl
  obtain ⟨-, hrestores⟩ := h (fun _ => some 1) hconnect exampleNet _ _ hctx fresh_exampleFresh
  obtain ⟨resumed, hresume, hrestored⟩ := hrestores _ _ hbackup (fitsArrays_exampleContext _) hshort
  obtain ⟨resumed', first, hresume', hobserved, -⟩ :=
    @cdpResumeRegInfo_fits (fun _ => some 1) hconnect exampleNet _ _ _ _ _ hctx rfl fresh_exampleFresh hshort hinfo
  obtain rfl : resumed = resumed' := Option.some.inj (hresume.symm.trans hresume')
  have hsingle := singleText_of_restored hobserved hrestored
  exact absurd hsingle (by simp [SingleText, exampleContext])

end NbiotXY1100.CdpBackup
