import Mathlib.Data.Option.Basic

/-! # Runs of a partial step function

An action is taken in a state or is refused there. A run takes a list of actions in
order. What every accepted step preserves under a condition on the action and the
state before it, a run preserves when each of its steps meets the condition. -/
namespace NbiotXY1100.StepRuns

variable {σ α : Type*} (step : α → σ → Option σ)

def run : List α → σ → Option σ
  | [], s => some s
  | a :: as, s => (step a s).bind (run as)

/-- The condition `P` holds of every action in the state in which a run takes it. -/
def Along (P : α → σ → Prop) : List α → σ → Prop
  | [], _ => True
  | a :: as, s => P a s ∧ ∀ s', step a s = some s' → Along P as s'

@[simp] theorem run_nil (s : σ) : run step [] s = some s := rfl

theorem run_cons (a : α) (as : List α) (s : σ) :
    run step (a :: as) s = (step a s).bind (run step as) := rfl

theorem run_cons_some {a : α} {as : List α} {s t : σ} :
    run step (a :: as) s = some t ↔ ∃ s', step a s = some s' ∧ run step as s' = some t :=
  Option.bind_eq_some_iff

theorem run_append (as bs : List α) (s : σ) :
    run step (as ++ bs) s = (run step as s).bind (run step bs) := by
  induction as generalizing s with
  | nil => rfl
  | cons a as ih =>
    cases h : step a s with
    | none => simp [run, h]
    | some s' => simp [run, h, ih]

theorem along_true (as : List α) (s : σ) : Along step (fun _ _ => True) as s := by
  induction as generalizing s with
  | nil => trivial
  | cons a as ih => exact ⟨trivial, fun s' _ => ih s'⟩

instance decidableAlong {P : α → σ → Prop} [∀ a s, Decidable (P a s)] :
    ∀ (as : List α) (s : σ), Decidable (Along step P as s)
  | [], _ => isTrue trivial
  | a :: as, s =>
    match h : step a s with
    | none => decidable_of_iff (P a s) (by simp [Along, h])
    | some s' =>
      have : Decidable (Along step P as s') := decidableAlong as s'
      decidable_of_iff (P a s ∧ Along step P as s') (by simp [Along, h])

theorem along_append {P : α → σ → Prop} {as bs : List α} {s : σ} :
    Along step P (as ++ bs) s ↔ Along step P as s ∧ ∀ t, run step as s = some t → Along step P bs t := by
  induction as generalizing s with
  | nil => simp [Along]
  | cons a as ih =>
    cases h : step a s with
    | none => simp [Along, run, h]
    | some s' => simp [Along, run, h, ih, and_assoc]

variable {step}

/-- A run keeps what each of its steps keeps under the condition. -/
theorem run_invariant {Inv : σ → Prop} {P : α → σ → Prop}
    (hstep : ∀ a s s', Inv s → P a s → step a s = some s' → Inv s')
    {as : List α} {s t : σ} (hs : Inv s) (hP : Along step P as s) (hrun : run step as s = some t) :
    Inv t := by
  induction as generalizing s with
  | nil =>
    cases hrun
    exact hs
  | cons a as ih =>
    obtain ⟨s', ha, has⟩ := (run_cons_some step).mp hrun
    exact ih (hstep a s s' hs hP.1 ha) (hP.2 s' ha) has

/-- Under an invariant, which steps that meet a condition keep, the condition gives another one
along a run. -/
theorem along_imp {Inv : σ → Prop} {P Q : α → σ → Prop} (himp : ∀ a s, Inv s → P a s → Q a s)
    (hstep : ∀ a s s', Inv s → P a s → step a s = some s' → Inv s') {as : List α} {s : σ} (hs : Inv s)
    (hP : Along step P as s) : Along step Q as s := by
  induction as generalizing s with
  | nil => trivial
  | cons a as ih =>
    obtain ⟨ha, hnext⟩ := hP
    refine ⟨himp a s hs ha, fun s' hs' => ?_⟩
    exact ih (hstep a s s' hs ha hs') (hnext s' hs')

/-- Two conditions that agree under an invariant, which accepted steps keep, agree along a run. -/
theorem along_congr {Inv : σ → Prop} {P Q : α → σ → Prop} (hiff : ∀ a s, Inv s → (P a s ↔ Q a s))
    (hstep : ∀ a s s', Inv s → P a s → step a s = some s' → Inv s') {as : List α} {s : σ} (hs : Inv s) :
    Along step P as s ↔ Along step Q as s := by
  constructor
  · exact along_imp (fun a s hs => (hiff a s hs).mp) hstep hs
  · exact along_imp (fun a s hs => (hiff a s hs).mpr) (fun a s s' hs hQ => hstep a s s' hs ((hiff a s hs).mpr hQ)) hs

/-- The property holds of every state that a run reaches, the first one included. -/
def Always (step : α → σ → Option σ) (Inv : σ → Prop) (as : List α) (s : σ) : Prop :=
  ∀ n t, run step (as.take n) s = some t → Inv t

theorem always_cons {Inv : σ → Prop} {a : α} {as : List α} {s : σ} :
    Always step Inv (a :: as) s ↔ Inv s ∧ ∀ s', step a s = some s' → Always step Inv as s' := by
  constructor
  · refine fun h => ⟨h 0 s rfl, fun s' ha n t hrun => h (n + 1) t ?_⟩
    rw [List.take_succ_cons, run_cons, ha]
    exact hrun
  · rintro ⟨hs, hnext⟩ n t hrun
    cases n with
    | zero =>
      cases hrun
      exact hs
    | succ n =>
      rw [List.take_succ_cons] at hrun
      obtain ⟨s', ha, has⟩ := (run_cons_some step).mp hrun
      exact hnext s' ha n t has

theorem always_nil {Inv : σ → Prop} {s : σ} : Always step Inv [] s ↔ Inv s := by
  simp [Always]

theorem always_imp {Inv Q : σ → Prop} (himp : ∀ s, Inv s → Q s) {as : List α} {s : σ} (h : Always step Inv as s) :
    Always step Q as s :=
  fun n t hrun => himp t (h n t hrun)

/-- What each step keeps under the condition holds all along a run that meets it. -/
theorem always_of_along {Inv : σ → Prop} {P : α → σ → Prop}
    (hstep : ∀ a s s', Inv s → P a s → step a s = some s' → Inv s') {as : List α} {s : σ} (hs : Inv s)
    (hP : Along step P as s) : Always step Inv as s := by
  induction as generalizing s with
  | nil => exact always_nil.mpr hs
  | cons a as ih =>
    refine always_cons.mpr ⟨hs, fun s' ha => ?_⟩
    exact ih (hstep a s s' hs hP.1 ha) (hP.2 s' ha)

/-- Where the condition says exactly when an accepted step keeps the property, it also says
exactly when a run does. `Str` holds of the states as long as the property does. -/
theorem always_iff_along_of {Str Inv : σ → Prop} {P : α → σ → Prop}
    (hstep : ∀ a s s', Str s → Inv s → step a s = some s' → Str s' ∧ (Inv s' ↔ P a s))
    (hrefused : ∀ a s, Str s → Inv s → step a s = none → P a s) {as : List α} {s : σ} (hstr : Str s) (hs : Inv s) :
    Always step Inv as s ↔ Along step P as s := by
  induction as generalizing s with
  | nil => exact iff_of_true (always_nil.mpr hs) trivial
  | cons a as ih =>
    rw [always_cons]
    cases ha : step a s with
    | none => simp [hs, Along, ha, hrefused a s hstr hs ha]
    | some s' =>
      obtain ⟨hstr', hiff⟩ := hstep a s s' hstr hs ha
      constructor
      · rintro ⟨-, hnext⟩
        have has := hnext s' rfl
        have hs' : Inv s' := has 0 s' rfl
        refine ⟨hiff.mp hs', fun t ht => ?_⟩
        cases ha.symm.trans ht
        exact (ih hstr' hs').mp has
      · rintro ⟨hP, hnext⟩
        refine ⟨hs, fun t ht => ?_⟩
        cases ht
        exact (ih hstr' (hiff.mpr hP)).mpr (hnext s' ha)

theorem always_iff_along {Inv : σ → Prop} {P : α → σ → Prop}
    (hstep : ∀ a s s', Inv s → step a s = some s' → (Inv s' ↔ P a s))
    (hrefused : ∀ a s, step a s = none → P a s) {as : List α} {s : σ} (hs : Inv s) :
    Always step Inv as s ↔ Along step P as s :=
  always_iff_along_of (fun a s s' (_ : True) hs ha => ⟨trivial, hstep a s s' hs ha⟩)
    (fun a s _ _ => hrefused a s) trivial hs

end NbiotXY1100.StepRuns
