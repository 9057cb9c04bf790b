import Mathlib.Data.List.Basic

/-! Programs over arrays in which each access is checked and each loop has a bound.
A program that yields a result has made no access outside its arrays and has left
all its loops. -/
namespace Checked

variable {α β σ : Type}

inductive Fault where
  | outOfBounds
  /-- A loop has not ended within its bound. -/
  | endless
deriving DecidableEq

/-- `array[i]`. -/
def readAt (array : List α) (i : Nat) : Except Fault α :=
  match array[i]? with
  | some a => .ok a
  | none => .error .outOfBounds

/-- The `length` elements from `array + offset` on. -/
def window (array : List α) (offset length : Nat) : Except Fault (List α) :=
  if offset + length ≤ array.length then .ok ((array.drop offset).take length) else .error .outOfBounds

theorem ok_bind (a : α) (next : α → Except Fault β) : (Except.ok a >>= next) = next a := rfl

theorem bind_eq_ok {first : Except Fault α} {next : α → Except Fault β} {b : β} (ran : (first >>= next) = .ok b) :
    ∃ a, first = .ok a ∧ next a = .ok b := by
  cases first with
  | error fault => cases ran
  | ok a => exact ⟨a,rfl,ran⟩

/-- The program ends without a fault, and its result meets `post`. -/
def Yields (program : Except Fault α) (post : α → Prop) : Prop := ∃ result, program = .ok result ∧ post result

theorem Yields.pure {post : α → Prop} {a : α} (met : post a) : Yields (pure a) post := ⟨a,rfl,met⟩

theorem Yields.bind {post : α → Prop} {after : β → Prop} {first : Except Fault α} {next : α → Except Fault β}
    (firstYields : Yields first post) (nextYields : ∀ a, post a → Yields (next a) after) : Yields (first >>= next) after := by
  obtain ⟨a,rfl,met⟩ := firstYields
  exact nextYields a met

theorem Yields.imp {post weaker : α → Prop} {program : Except Fault α} (yields : Yields program post)
    (implied : ∀ a, post a → weaker a) : Yields program weaker := by
  obtain ⟨a,rfl,met⟩ := yields
  exact ⟨a,rfl,implied a met⟩

theorem Yields.ite {post : α → Prop} {condition : Prop} [Decidable condition] {first second : Except Fault α}
    (positive : condition → Yields first post) (negative : ¬ condition → Yields second post) :
    Yields (if condition then first else second) post := by
  split
  · exact positive (by assumption)
  · exact negative (by assumption)

theorem readAt_eq {array : List α} {i : Nat} (inside : i < array.length) : readAt array i = .ok (array[i]) := by
  unfold readAt
  rw [List.getElem?_eq_getElem inside]

theorem readAt_yields {array : List α} {i : Nat} (inside : i < array.length) : Yields (readAt array i) fun _ => True :=
  ⟨_,readAt_eq inside,trivial⟩

theorem readAt_append (before after : List α) (i : Nat) : readAt (before ++ after) (before.length + i) = readAt after i := by
  unfold readAt
  rw [List.getElem?_append_right (Nat.le_add_right _ _),Nat.add_sub_cancel_left]

theorem readAt_append_cons (before : List α) (a : α) (after : List α) :
    readAt (before ++ a::after) before.length = .ok a := readAt_append before (a::after) 0

theorem window_eq {array : List α} {offset length : Nat} (inside : offset + length ≤ array.length) :
    window array offset length = .ok ((array.drop offset).take length) := if_pos inside

theorem window_append (before part after : List α) : window (before ++ (part ++ after)) before.length part.length = .ok part := by
  rw [window_eq (by simp),List.drop_left,List.take_left]

theorem window_rest (before part : List α) :
    window (before ++ part) before.length ((before ++ part).length - before.length) = .ok part := by
  have found := window_append before part []
  rw [List.append_nil] at found
  rw [List.length_append,Nat.add_sub_cancel_left]
  exact found

theorem window_yields {array : List α} {offset length : Nat} (inside : offset + length ≤ array.length) :
    Yields (window array offset length) fun part => part.length = length := by
  refine ⟨_,window_eq inside,?_⟩
  show ((array.drop offset).take length).length = length
  rw [List.length_take,List.length_drop]
  omega

section Latched

/-! Programs over a state that latches its failure: once it has failed it stays so,
and results read after that are not used. -/

variable (failed : σ → Prop)

/-- The program ends from every state and keeps a failure. -/
class Ends (program : StateT σ (Except Fault) α) : Prop where
  ends : ∀ state, Yields (program.run state) fun result => failed state → failed result.2

/-- The program ends, and its result meets `post` unless there was a failure. -/
def Meets (program : StateT σ (Except Fault) α) (post : α → Prop) : Prop :=
  ∀ state, Yields (program.run state) fun result =>
    (failed state → failed result.2) ∧ (failed result.2 ∨ post result.1)

variable {failed}

theorem Meets.ends {post : α → Prop} {program : StateT σ (Except Fault) α} (meets : Meets failed program post) :
    Ends failed program := ⟨fun state => (meets state).imp fun _ met => met.1⟩

theorem Ends.meets {program : StateT σ (Except Fault) α} (ends : Ends failed program) :
    Meets failed program fun _ => True :=
  fun state => (ends.ends state).imp fun _ kept => ⟨kept,.inr trivial⟩

theorem Meets.pure {post : α → Prop} {a : α} (met : post a) : Meets failed (pure a) post :=
  fun state => ⟨(a,state),rfl,id,.inr met⟩

theorem Meets.bind {post : α → Prop} {after : β → Prop} {first : StateT σ (Except Fault) α}
    {next : α → StateT σ (Except Fault) β} [ends : ∀ a, Ends failed (next a)] (meets : Meets failed first post)
    (nextMeets : ∀ a, post a → Meets failed (next a) after) : Meets failed (first >>= next) after := by
  intro state
  obtain ⟨⟨a,state'⟩,ran,kept,met⟩ := meets state
  have whole : (first >>= next).run state = (next a).run state' := by
    rw [StateT.run_bind,ran]
    rfl
  rw [whole]
  obtain fails | met := met
  · -- what `next` makes of a result read after the failure does not matter
    exact ((ends a).ends state').imp fun _ stays => ⟨fun _ => stays fails,.inl (stays fails)⟩
  · exact (nextMeets a met state').imp fun _ ⟨stays,meets⟩ => ⟨fun fails => stays (kept fails),meets⟩

theorem Meets.ite {post : α → Prop} {condition : Prop} [Decidable condition] {first second : StateT σ (Except Fault) α}
    (positive : condition → Meets failed first post) (negative : ¬ condition → Meets failed second post) :
    Meets failed (if condition then first else second) post := by
  split
  · exact positive (by assumption)
  · exact negative (by assumption)

theorem Meets.imp {post weaker : α → Prop} {program : StateT σ (Except Fault) α} (meets : Meets failed program post)
    (implied : ∀ a, post a → weaker a) : Meets failed program weaker :=
  fun state => (meets state).imp fun result ⟨kept,met⟩ => ⟨kept,met.imp id (implied result.1)⟩

instance (a : α) : Ends failed (pure a) := ⟨fun state => ⟨(a,state),rfl,id⟩⟩

instance (first : StateT σ (Except Fault) α) (next : α → StateT σ (Except Fault) β) [ends : Ends failed first]
    [continues : ∀ a, Ends failed (next a)] : Ends failed (first >>= next) :=
  (ends.meets.bind fun a _ => (continues a).meets).ends

theorem Meets.after {post : β → Prop} {first : StateT σ (Except Fault) α} {next : α → StateT σ (Except Fault) β}
    [ends : Ends failed first] [∀ a, Ends failed (next a)] (nextMeets : ∀ a, Meets failed (next a) post) :
    Meets failed (first >>= next) post := ends.meets.bind fun a _ => nextMeets a

instance (condition : Prop) [Decidable condition] (first second : StateT σ (Except Fault) α)
    [positive : Ends failed first] [negative : Ends failed second] : Ends failed (if condition then first else second) :=
  (Meets.ite (fun _ => positive.meets) (fun _ => negative.meets)).ends

/-- The program ends from every state, and its result meets `post` in any case. -/
def Always (program : StateT σ (Except Fault) α) (post : α → Prop) : Prop :=
  ∀ state, Yields (program.run state) fun result => post result.1

theorem Always.pure {post : α → Prop} {a : α} (met : post a) : Always (pure a : StateT σ (Except Fault) α) post :=
  fun state => ⟨(a,state),rfl,met⟩

theorem Always.bind {post : α → Prop} {after : β → Prop} {first : StateT σ (Except Fault) α}
    {next : α → StateT σ (Except Fault) β} (always : Always first post) (nextAlways : ∀ a, post a → Always (next a) after) :
    Always (first >>= next) after := by
  intro state
  obtain ⟨⟨a,state'⟩,ran,met⟩ := always state
  have whole : (first >>= next).run state = (next a).run state' := by
    rw [StateT.run_bind,ran]
    rfl
  rw [whole]
  exact nextAlways a met state'

theorem Ends.always {program : StateT σ (Except Fault) α} (ends : Ends failed program) : Always program fun _ => True :=
  fun state => (ends.ends state).imp fun _ _ => trivial

variable (failed) in
theorem Always.after {post : β → Prop} {first : StateT σ (Except Fault) α} {next : α → StateT σ (Except Fault) β}
    [ends : Ends failed first] (nextAlways : ∀ a, Always (next a) post) : Always (first >>= next) post :=
  ends.always.bind fun a _ => nextAlways a

theorem Always.ite {post : α → Prop} {condition : Prop} [Decidable condition] {first second : StateT σ (Except Fault) α}
    (positive : condition → Always first post) (negative : ¬ condition → Always second post) :
    Always (if condition then first else second) post := by
  split
  · exact positive (by assumption)
  · exact negative (by assumption)

end Latched

end Checked
