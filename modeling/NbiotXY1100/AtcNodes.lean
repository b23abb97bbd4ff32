import NbiotXY1100.AtcTask
import Mathlib.Data.List.Nodup

/-! # The numbers of the API requests

Each accepted API request gets the next number from 1 to 255, and the count starts anew when
the list of nodes becomes empty. The nodes in the list have different numbers as long as
none is 254 requests old. -/
namespace NbiotXY1100.AtcNodes
open AtcTask KeyedLists

/-- The number of the last of `k` requests. -/
def numberOf : ℕ → UInt8
  | 0 => 0
  | k + 1 => UInt8.ofNat (k % 255 + 1)

theorem toNat_numberOf_succ (k : ℕ) : (numberOf (k + 1)).toNat = k % 255 + 1 := by
  have hlt : k % 255 < 255 := Nat.mod_lt k (by omega)
  rw [numberOf, UInt8.toNat_ofNat', Nat.mod_eq_of_lt (by omega)]

theorem numberOf_succ_ne_zero (k : ℕ) : numberOf (k + 1) ≠ 0 := by
  intro h
  have hk := toNat_numberOf_succ k
  rw [h] at hk
  exact Nat.succ_ne_zero _ hk.symm

theorem numberOf_succ_inj {i j : ℕ} (hij : i < j + 255) (hji : j < i + 255)
    (h : numberOf (i + 1) = numberOf (j + 1)) : i = j := by
  have hmod := congrArg UInt8.toNat h
  rw [toNat_numberOf_succ, toNat_numberOf_succ] at hmod
  omega

/-- The function that adds a node goes from each number to the next. -/
theorem next_numberOf (k : ℕ) :
    (if numberOf k + 1 = 0 then numberOf k + 1 + 1 else numberOf k + 1) = numberOf (k + 1) := by
  cases k with
  | zero => rfl
  | succ k =>
    have hk := toNat_numberOf_succ k
    have hlt : k % 255 < 255 := Nat.mod_lt k (by omega)
    have hadd : (numberOf (k + 1) + 1).toNat = (k % 255 + 2) % 256 := by
      rw [UInt8.toNat_add, hk]
      rfl
    apply UInt8.toNat.inj
    rw [toNat_numberOf_succ]
    by_cases hlast : k % 255 = 254
    · have hzero : numberOf (k + 1) + 1 = 0 := UInt8.toNat.inj (by rw [hadd, hlast]; rfl)
      rw [if_pos hzero, hzero, Nat.add_mod, hlast]
      rfl
    · have hne : numberOf (k + 1) + 1 ≠ 0 := by
        intro hzero
        rw [hzero] at hadd
        simp only [UInt8.toNat_zero] at hadd
        omega
      rw [if_neg hne, hadd]
      omega

/-- The numbers count the requests accepted since `base`. -/
structure Numbered (s : AtcApInfo) (base : ℕ) : Prop where
  base_le : base ≤ s.accepts
  last : s.appSeqNum = numberOf (s.accepts - base)
  node : ∀ n ∈ s.appNodes, base ≤ n.accept ∧ n.ucSeqNum = numberOf (n.accept - base + 1)
  age : ∀ n ∈ s.appNodes, n.accept < s.accepts ∧ s.accepts ≤ n.accept + 254
  order : (s.appNodes.map AppInterfaceNode.accept).Pairwise (· < ·)

variable {s : AtcApInfo} {base : ℕ}

theorem numbered_init : Numbered .init 0 :=
  ⟨Nat.le_refl 0, rfl, fun _ hn => (List.not_mem_nil hn).elim, fun _ hn => (List.not_mem_nil hn).elim, .nil⟩

theorem Numbered.congr {t : AtcApInfo} (h : Numbered s base) (hseq : t.appSeqNum = s.appSeqNum)
    (haccepts : t.accepts = s.accepts) (hnodes : t.appNodes = s.appNodes) : Numbered t base := by
  refine ⟨?_, ?_, ?_, ?_, ?_⟩
  · exact haccepts ▸ h.base_le
  · rw [hseq, haccepts]
    exact h.last
  · exact hnodes ▸ h.node
  · rw [hnodes, haccepts]
    exact h.age
  · exact hnodes ▸ h.order

theorem Numbered.nodup (h : Numbered s base) : (s.appNodes.map AppInterfaceNode.ucSeqNum).Nodup := by
  have horder : (s.appNodes.map AppInterfaceNode.accept).Nodup := h.order.imp Nat.ne_of_lt
  refine List.Nodup.map_on (fun n hn m hm hseq => ?_) (List.Nodup.of_map _ horder)
  have hn' := h.node n hn
  have hm' := h.node m hm
  have hage := And.intro (h.age n hn) (h.age m hm)
  rw [hn'.2, hm'.2] at hseq
  have haccept := numberOf_succ_inj (by omega) (by omega) hseq
  exact List.inj_on_of_nodup_map horder hn hm (by omega)

/-- The last node has the number that the next command of its request is sent with. -/
theorem Numbered.newest (h : Numbered s base) {n : AppInterfaceNode} (hn : n ∈ s.appNodes)
    (haccept : n.accept + 1 = s.accepts) : n.ucSeqNum = s.appSeqNum ∧ s.appSeqNum ≠ 0 := by
  have hnode := h.node n hn
  have hlast : s.accepts - base = n.accept - base + 1 := by omega
  rw [h.last, hlast]
  exact ⟨hnode.2, numberOf_succ_ne_zero _⟩

theorem addAppInterfaceInfo_appSeqNum (h : Numbered s base) (req : DataReq) :
    (addAppInterfaceInfo req s).appSeqNum = numberOf (s.accepts - base + 1) := by
  rw [← next_numberOf, ← h.last]
  rfl

theorem Numbered.add (h : Numbered s base) (hage : ∀ n ∈ s.appNodes, s.accepts < n.accept + 254)
    (req : DataReq) : Numbered (addAppInterfaceInfo req s) base := by
  have hseq := addAppInterfaceInfo_appSeqNum h req
  have hbase := h.base_le
  refine ⟨Nat.le_succ_of_le hbase, ?_, fun n hn => ?_, fun n hn => ?_, ?_⟩
  · have hcount : (addAppInterfaceInfo req s).accepts - base = s.accepts - base + 1 :=
      Nat.succ_sub hbase
    rw [hcount]
    exact hseq
  · rcases List.mem_append.mp hn with hn | hn
    · exact h.node n hn
    · cases List.mem_singleton.mp hn
      exact ⟨hbase, hseq⟩
  · rcases List.mem_append.mp hn with hn | hn
    · exact ⟨Nat.lt_succ_of_lt (h.age n hn).1, hage n hn⟩
    · cases List.mem_singleton.mp hn
      exact ⟨Nat.lt_succ_self _, Nat.succ_le_of_lt (by simp)⟩
  · simp only [addAppInterfaceInfo, List.map_append, List.map_cons, List.map_nil]
    refine List.pairwise_append.mpr ⟨h.order, List.pairwise_singleton _ _, fun k hk l hl => ?_⟩
    obtain ⟨n, hn, rfl⟩ := List.mem_map.mp hk
    cases List.mem_singleton.mp hl
    exact (h.age n hn).1

/-- A caller removes its node; the count starts anew when none is left. -/
theorem Numbered.del (h : Numbered s base) (test : AppInterfaceNode → Bool) :
    ∃ base, Numbered (delAppInterfaceResult test s) base := by
  by_cases hnil : s.appNodes.eraseP test = []
  · refine ⟨s.accepts, Nat.le_refl _, ?_, ?_, ?_, ?_⟩
    · simp [delAppInterfaceResult, hnil, numberOf]
    all_goals simp [delAppInterfaceResult, hnil]
  · have hsub : s.appNodes.eraseP test ⊆ s.appNodes := List.eraseP_subset
    refine ⟨base, h.base_le, ?_, fun n hn => h.node n (hsub hn), fun n hn => h.age n (hsub hn), ?_⟩
    · simpa [delAppInterfaceResult, hnil] using h.last
    · exact h.order.sublist (List.eraseP_sublist.map _)

/-- A result in a node changes no number. -/
theorem Numbered.update (h : Numbered s base) (f : AppInterfaceNode → AppInterfaceNode)
    (hseq : ∀ n, (f n).ucSeqNum = n.ucSeqNum) (haccept : ∀ n, (f n).accept = n.accept) :
    Numbered { s with appNodes := s.appNodes.map f } base := by
  refine ⟨h.base_le, h.last, fun n hn => ?_, fun n hn => ?_, ?_⟩
  · obtain ⟨m, hm, rfl⟩ := List.mem_map.mp hn
    rw [hseq, haccept]
    exact h.node m hm
  · obtain ⟨m, hm, rfl⟩ := List.mem_map.mp hn
    rw [haccept]
    exact h.age m hm
  · have hsame : (s.appNodes.map f).map AppInterfaceNode.accept = s.appNodes.map AppInterfaceNode.accept := by
      rw [List.map_map]
      exact List.map_congr_left fun n _ => haccept n
    exact hsame ▸ h.order

end NbiotXY1100.AtcNodes
