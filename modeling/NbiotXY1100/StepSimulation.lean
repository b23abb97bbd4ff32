import NbiotXY1100.StepRuns

/-! # Simulation of partial step functions

Two partial step functions that accept the same actions in related states, and lead to related states, do so
along whole runs. -/
namespace NbiotXY1100.StepSimulation
open StepRuns

variable {α β γ δ : Type*} {r : α → β → Prop} {s : γ → δ → Prop}

theorem rel_bind {x : Option α} {y : Option β} {f : α → Option γ} {g : β → Option δ} (h : Option.Rel r x y)
    (hfg : ∀ a b, r a b → Option.Rel s (f a) (g b)) : Option.Rel s (x.bind f) (y.bind g) := by
  cases h with
  | none => exact .none
  | some hab => exact hfg _ _ hab

theorem rel_map {x : Option α} {y : Option β} {f : α → γ} {g : β → δ} (h : Option.Rel r x y)
    (hfg : ∀ a b, r a b → s (f a) (g b)) : Option.Rel s (x.map f) (y.map g) := by
  cases h with
  | none => exact .none
  | some hab => exact .some (hfg _ _ hab)

theorem rel_imp {r' : α → β → Prop} {x : Option α} {y : Option β} (h : Option.Rel r x y)
    (himp : ∀ a b, r a b → r' a b) : Option.Rel r' x y := by
  cases h with
  | none => exact .none
  | some hab => exact .some (himp _ _ hab)

theorem rel_some_left {x : Option α} {y : Option β} {a : α} (h : Option.Rel r x y) (hx : x = some a) :
    ∃ b, y = some b ∧ r a b := by
  cases h with
  | none => cases hx
  | some hab =>
    cases hx
    exact ⟨_, rfl, hab⟩

theorem run_rel {ι : Type*} {step : ι → α → Option α} {step' : ι → β → Option β}
    (hstep : ∀ i a b, r a b → Option.Rel r (step i a) (step' i b)) (as : List ι) {a : α} {b : β} (h : r a b) :
    Option.Rel r (run step as a) (run step' as b) := by
  induction as generalizing a b with
  | nil => exact .some h
  | cons i as ih => exact rel_bind (hstep i a b h) (fun a' b' hab => ih hab)

end NbiotXY1100.StepSimulation
