import SrtLiveServer.ConfTree

/-! What an accepted configuration file has been read as. An activation of the
reader answers with the variable its nested calls have written, and the first
activation returns at the first closing brace it meets; so a file can be accepted
that ends inside a block, or whose end was never read. -/
namespace SrtLiveServer.Conf
open Bytes

variable {Conf : Type}

def taken (confs : List (RuntimeConf Conf)) : Scope Conf → List (Scope Conf) → List Text → List (Text × Action Conf)
  | _,_,[] => []
  | scope,callers,raw::rest => (raw,scope.action confs raw)::match scope.action confs raw with
    | .skip => taken confs scope callers rest
    | .store _ strLine => taken confs {scope with strLineLast := strLine} callers rest
    | .openBlock runtime strLine => taken confs (scope.called runtime) (scope.resumed runtime strLine::callers) rest
    | .close => match callers with
      | [] => []
      | caller::callers => taken confs caller callers rest
    | .fail => []

def Parsed (item : Text × Action Conf) : Prop :=
  match classify item.1,item.2 with
  | .blank,.skip => True
  | .directive _,.store _ _ => True
  | .opening _,.openBlock _ _ => True
  | .closing,.close => True
  | _,_ => False

/-- The braces balance, and the file was read to its end with every line parsed. -/
structure Consumed (confs : List (RuntimeConf Conf)) (scope : Scope Conf) (callers : List (Scope Conf))
    (lines : List Text) : Prop where
  even : balanced callers.length lines = true
  whole : (taken confs scope callers lines).map Prod.fst = lines
  parsed : ∀ item ∈ taken confs scope callers lines, Parsed item

/-- No closing brace stands outside of every block, and the file does not end
inside a block behind a closing brace. `nested` is whether the last brace was a
closing one, `depth` the open blocks. -/
def closesLast : Bool → Nat → List Text → Bool
  | nested,depth,[] => depth == 0 || !nested
  | nested,depth,raw::rest => match classify raw,depth with
    | .opening _,depth => closesLast false (depth + 1) rest
    | .closing,0 => false
    | .closing,depth + 1 => closesLast true depth rest
    | _,depth => closesLast nested depth rest

theorem closesLast_of_balanced (lines : List Text) (nested : Bool) (depth : Nat)
    (even : balanced depth lines = true) : closesLast nested depth lines = true := by
  induction lines generalizing nested depth with
  | nil =>
    simp only [balanced,beq_iff_eq] at even
    simp [closesLast,even]
  | cons raw rest ih =>
    cases line : classify raw with
    | blank =>
      simp only [balanced,line] at even
      simp only [closesLast,line]
      exact ih nested depth even
    | directive text =>
      simp only [balanced,line] at even
      simp only [closesLast,line]
      exact ih nested depth even
    | opening name =>
      simp only [balanced,line] at even
      simp only [closesLast,line]
      exact ih false (depth + 1) even
    | closing =>
      cases depth with
      | zero => simp [balanced,line] at even
      | succ depth =>
        simp only [balanced,line] at even
        simp only [closesLast,line]
        exact ih true depth even
    | invalid =>
      simp only [balanced,line] at even
      simp only [closesLast,line]
      exact ih nested depth even

theorem Consumed.step {confs : List (RuntimeConf Conf)} {scope next : Scope Conf} {callers after : List (Scope Conf)}
    {raw : Text} {rest : List Text} (consumed : Consumed confs next after rest)
    (depth : balanced callers.length (raw::rest) = balanced after.length rest)
    (read : taken confs scope callers (raw::rest) = (raw,scope.action confs raw)::taken confs next after rest)
    (parsed : Parsed (raw,scope.action confs raw)) : Consumed confs scope callers (raw::rest) where
  even := depth.trans consumed.even
  whole := by rw [read,List.map_cons,consumed.whole]
  parsed := by
    rw [read]
    intro item member
    rcases List.mem_cons.mp member with rfl | later
    · exact parsed
    · exact consumed.parsed item later

/-- The induction follows the reader: what an activation would answer at the end of
the file is whether the last brace was a closing one, and a caller always resumes
behind a closing brace. -/
theorem consumed_of_closesLast (confs : List (RuntimeConf Conf)) (lines : List Text) (opened : Bool) (scope : Scope Conf)
    (callers : List (Scope Conf)) (resume : ∀ caller ∈ callers, caller.ret = true)
    (accepted : (recognise confs opened scope callers lines).1 = true)
    (closes : closesLast scope.ret callers.length lines = true) : Consumed confs scope callers lines := by
  induction lines generalizing opened scope callers with
  | nil =>
    have answer : scope.ret = true := accepted
    simp only [closesLast,answer,Bool.not_true,Bool.or_false] at closes
    exact ⟨closes,rfl,fun _ member => by cases member⟩
  | cons raw rest ih =>
    have passes : scope.action confs raw ≠ .fail := by
      intro fails
      simp only [recognise,fails] at accepted
      cases accepted
    cases line : classify raw with
    | blank =>
      have action := scope.action_blank confs line
      simp only [recognise,action] at accepted
      simp only [closesLast,line] at closes
      exact (ih opened scope callers resume accepted closes).step (by simp only [balanced,line])
        (by simp only [taken,action]) (by simp only [Parsed,line,action])
    | directive text =>
      obtain ⟨_,write,_,_,action⟩ := scope.action_directive confs line passes
      simp only [recognise,action] at accepted
      simp only [closesLast,line] at closes
      exact (ih opened {scope with strLineLast := text} callers resume accepted closes).step
        (by simp only [balanced,line]) (by simp only [taken,action]) (by simp only [Parsed,line,action])
    | opening name =>
      obtain ⟨runtime,_,action⟩ := scope.action_opening confs line passes
      simp only [recognise,action] at accepted
      simp only [closesLast,line] at closes
      have resumed : ∀ caller ∈ scope.resumed runtime name::callers, caller.ret = true := by
        intro caller member
        rcases List.mem_cons.mp member with rfl | outer
        · rfl
        · exact resume caller outer
      exact (ih true (scope.called runtime) (scope.resumed runtime name::callers) resumed accepted closes).step
        (by simp only [balanced,line,List.length_cons]) (by simp only [taken,action]) (by simp only [Parsed,line,action])
    | closing =>
      have action := scope.action_closing confs line
      cases callers with
      | nil => simp [closesLast,line] at closes
      | cons caller callers =>
        simp only [recognise,action] at accepted
        have closes : closesLast caller.ret callers.length rest = true := by
          rw [resume caller List.mem_cons_self]
          simpa only [closesLast,line,List.length_cons] using closes
        have outer : ∀ other ∈ callers, other.ret = true := fun other member =>
          resume other (List.mem_cons_of_mem caller member)
        exact (ih opened caller callers outer accepted closes).step (by simp only [balanced,line,List.length_cons])
          (by simp only [taken,action]) (by simp only [Parsed,line,action])
    | invalid => exact absurd (scope.action_invalid confs line) passes

/-- An accepted file is balanced and was read to its end, every line parsed, exactly
if no closing brace stands outside of every block and the file does not end inside
a block behind the end of a nested one. -/
theorem accepted_file_consumed_iff (confs : List (RuntimeConf Conf)) (s : State Conf) (text : Text)
    (accepted : (s.confOpen confs (some text)).1 = true) :
    Consumed confs Scope.start [] (getlines text) ↔ closesLast false 0 (getlines text) = true := by
  constructor
  · intro consumed
    exact closesLast_of_balanced (getlines text) false 0 consumed.even
  · intro closes
    have parsed := (s.confOpen_accepted confs text accepted).1
    rw [parseBlock_fst] at parsed
    exact consumed_of_closesLast confs (getlines text) false Scope.start [] (fun _ member => by cases member) parsed closes

theorem accepted_file_consumed_iff_nested : Consumed blockTypes Scope.start [] (getlines nestedBlocks) :=
  (accepted_file_consumed_iff blockTypes State.start nestedBlocks (by decide)).mpr (by decide)

/-- A file cut off behind a nested block, and one whose first line closes nothing
and hides the rest, are accepted. -/
theorem truncated_file_accepted :
    ¬ (∀ (confs : List (RuntimeConf Unit)) (s : State Unit) (text : Text), (s.confOpen confs (some text)).1 = true →
      Consumed confs Scope.start [] (getlines text)) ∧
    (State.start.confOpen blockTypes (some (ascii "srt \x7b\nserver \x7b\n\x7d\n"))).1 = true ∧
    (State.start.confOpen blockTypes (some (ascii "\x7d\nno such line\n"))).1 = true := by
  refine ⟨?_,by decide,by decide⟩
  intro claim
  have even := (claim blockTypes State.start (ascii "srt \x7b\nserver \x7b\n\x7d\n") (by decide)).even
  revert even
  decide

end SrtLiveServer.Conf
