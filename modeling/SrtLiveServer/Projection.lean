import SrtLiveServer.Transition

/-! Views of a machine that are moved by operations of their own. A step of the machine is
a list of operations on the view, which may depend on the state, and a run is the list
of all of them: what the rest of the machine does is not seen. -/
namespace Projection
open Transition

universe u v w x

/-- `concern` lists what a step does to the view. -/
structure View {State : Type u} {Label : Type v} (machine : Machine State Label) (Part : Type w) (Op : Type x) where
  view : State → Part
  concern : State → Label → List Op
  act : Part → Op → Part
  commutes : ∀ state label next, machine.step state label = some next →
    view next = (concern state label).foldl act (view state)

variable {State : Type u} {Label : Type v} {machine : Machine State Label} {Part : Type w} {Op : Type x}

/-- The operations on the view along a run. -/
def View.trace (view : View machine Part Op) : State → List Label → List Op
  | _,[] => []
  | state,label::rest =>
    view.concern state label ++ match machine.step state label with
      | none => []
      | some next => view.trace next rest

theorem View.run (view : View machine Part Op) {state final : State} {labels : List Label}
    (ran : machine.run state labels = some final) :
    view.view final = (view.trace state labels).foldl view.act (view.view state) := by
  induction labels generalizing state with
  | nil =>
    cases Option.some.inj ran
    rfl
  | cons label rest ih =>
    obtain ⟨next,stepped,ran⟩ := Machine.run_cons ran
    rw [ih ran,view.commutes state label next stepped,View.trace,stepped,List.foldl_append]

theorem View.mem_trace (view : View machine Part Op) {state : State} {labels : List Label} {op : Op}
    (member : op ∈ view.trace state labels) :
    ∃ reached label, label ∈ labels ∧ op ∈ view.concern reached label := by
  induction labels generalizing state with
  | nil => cases member
  | cons label rest ih =>
    rw [View.trace,List.mem_append] at member
    obtain here | later := member
    · exact ⟨state,label,List.mem_cons_self,here⟩
    · split at later
      · cases later
      · obtain ⟨reached,found,listed,concerned⟩ := ih later
        exact ⟨reached,found,List.mem_cons_of_mem _ listed,concerned⟩

end Projection
