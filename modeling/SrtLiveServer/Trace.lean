import Mathlib.Data.List.Basic

/-! Event logs in which every event is justified by the events before it. A
machine that only appends to its log keeps such a log justified if each step
justifies what it appends. -/
namespace Trace

universe u
variable {Event : Type u}

/-- Each event of `future` is justified by `past` and the events before it. -/
def Justified (just : List Event → Event → Prop) : List Event → List Event → Prop
  | _,[] => True
  | past,event::future => just past event ∧ Justified just (past ++ [event]) future

variable {just : List Event → Event → Prop}

theorem justified_append (past first second : List Event) :
    Justified just past (first ++ second) ↔
      Justified just past first ∧ Justified just (past ++ first) second := by
  induction first generalizing past with
  | nil => simp [Justified]
  | cons event first ih =>
    rw [List.cons_append,Justified,Justified,ih,and_assoc]
    simp only [List.append_assoc,List.singleton_append]

theorem Justified.append {log added : List Event} (justified : Justified just [] log)
    (next : Justified just log added) : Justified just [] (log ++ added) :=
  (justified_append [] log added).mpr ⟨justified,next⟩

theorem Justified.at {before after : List Event} {event : Event}
    (justified : Justified just [] (before ++ event::after)) : just before event :=
  ((justified_append [] before (event::after)).mp justified).2.1

end Trace
