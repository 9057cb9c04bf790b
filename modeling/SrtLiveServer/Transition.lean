import Mathlib.Data.List.Basic

/-! Labelled machines and the induction rules for their runs. A label carries
every choice of the environment, so a step is a partial function and a run is
determined by its labels. Guards restrict the labels taken at a state. -/
namespace Transition

universe u v

/-- `step` is undefined where the label is not enabled. -/
structure Machine (State : Type u) (Label : Type v) where
  step : State → Label → Option State

variable {State : Type u} {Label : Type v}

def Machine.run (machine : Machine State Label) : State → List Label → Option State
  | state,[] => some state
  | state,label::rest => (machine.step state label).bind fun next => machine.run next rest

/-- Every label of the run meets `guard` in the state it is taken from. -/
def Machine.Admits (machine : Machine State Label) (guard : State → Label → Prop) :
    State → List Label → Prop
  | _,[] => True
  | state,label::rest => guard state label ∧
      ∀ next, machine.step state label = some next → machine.Admits guard next rest

/-- A run with a decidable guard can be checked by running it. -/
instance Machine.decidableAdmits (machine : Machine State Label) (guard : State → Label → Prop)
    [decide : ∀ state label, Decidable (guard state label)] :
    (state : State) → (labels : List Label) → Decidable (machine.Admits guard state labels)
  | _,[] => .isTrue trivial
  | state,label::rest =>
    match stepped : machine.step state label with
    | none => decidable_of_iff (guard state label)
        ⟨fun met => ⟨met,fun _ found => absurd (stepped.symm.trans found) (Option.some_ne_none _).symm⟩,And.left⟩
    | some next =>
      have : Decidable (machine.Admits guard next rest) := Machine.decidableAdmits machine guard next rest
      decidable_of_iff (guard state label ∧ machine.Admits guard next rest)
        ⟨fun both => ⟨both.1,fun _ found => Option.some.inj (stepped.symm.trans found) ▸ both.2⟩,
          fun admits => ⟨admits.1,admits.2 next stepped⟩⟩

/-- `invariant` is kept by each step whose label meets `guard`. -/
def Machine.Keeps (machine : Machine State Label) (guard : State → Label → Prop)
    (invariant : State → Prop) : Prop :=
  ∀ state label next, invariant state → guard state label →
    machine.step state label = some next → invariant next

variable {machine : Machine State Label}

theorem Machine.run_cons {state final : State} {label : Label} {rest : List Label}
    (ran : machine.run state (label::rest) = some final) :
    ∃ next, machine.step state label = some next ∧ machine.run next rest = some final :=
  Option.bind_eq_some_iff.mp ran

theorem Machine.run_append {state middle final : State} {first second : List Label}
    (ran : machine.run state first = some middle) (ran' : machine.run middle second = some final) :
    machine.run state (first ++ second) = some final := by
  induction first generalizing state with
  | nil =>
    cases Option.some.inj ran
    exact ran'
  | cons label rest ih =>
    obtain ⟨next,stepped,ran⟩ := Machine.run_cons ran
    exact Option.bind_eq_some_iff.mpr ⟨next,stepped,ih ran⟩

theorem Machine.run_single {state next : State} {label : Label} (stepped : machine.step state label = some next) :
    machine.run state [label] = some next := Option.bind_eq_some_iff.mpr ⟨next,stepped,rfl⟩

/-- Run rule for guarded machines: the step rule lifts to every state reached. -/
theorem Machine.Keeps.run {guard : State → Label → Prop} {invariant : State → Prop}
    (keeps : machine.Keeps guard invariant) {state final : State} {labels : List Label}
    (initial : invariant state) (admitted : machine.Admits guard state labels)
    (ran : machine.run state labels = some final) : invariant final := by
  induction labels generalizing state with
  | nil =>
    cases Option.some.inj ran
    exact initial
  | cons label rest ih =>
    obtain ⟨next,stepped,ran⟩ := Machine.run_cons ran
    exact ih (keeps state label next initial admitted.1 stepped) (admitted.2 next stepped) ran

theorem Machine.admits_true (state : State) (labels : List Label) :
    machine.Admits (fun _ _ => True) state labels := by
  induction labels generalizing state with
  | nil => trivial
  | cons label rest ih => exact ⟨trivial,fun next _ => ih next⟩

theorem Machine.Keeps.run_all {invariant : State → Prop}
    (keeps : machine.Keeps (fun _ _ => True) invariant) {state final : State} {labels : List Label}
    (initial : invariant state) (ran : machine.run state labels = some final) : invariant final :=
  keeps.run initial (Machine.admits_true state labels) ran

end Transition
