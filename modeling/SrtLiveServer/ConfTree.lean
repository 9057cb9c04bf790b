import SrtLiveServer.ConfReload

/-! The tree of a configuration file. What the braces of a file describe is a
forest of named blocks; the reader is run along that description, and the nodes
it links in, first child or next sibling, show the same forest. -/
namespace SrtLiveServer.Conf
open Bytes LinkedTree Transition

variable {Conf : Type}

/-- The lines describe a sequence of blocks, each by its name and the blocks
nested in it. `last` is the line before them: it names a block whose opening
brace stands alone. -/
inductive Describes : Text → List Text → List (Rose Text) → Prop where
  | done {last : Text} : Describes last [] []
  | blank {last raw : Text} {rest : List Text} {blocks : List (Rose Text)} (line : classify raw = .blank)
      (next : Describes last rest blocks) : Describes last (raw::rest) blocks
  | directive {last raw text : Text} {rest : List Text} {blocks : List (Rose Text)}
      (line : classify raw = .directive text) (next : Describes text rest blocks) : Describes last (raw::rest) blocks
  | block {last raw close name : Text} {inner rest : List Text} {nested blocks : List (Rose Text)}
      (line : classify raw = .opening name) (inside : Describes [] inner nested) (closing : classify close = .closing)
      (next : Describes name rest blocks) :
      Describes last (raw::(inner ++ close::rest)) (.node (if name = [] then last else name) nested::blocks)

/-- Every closing brace matches an opening one and, from `depth` open blocks on,
all are closed at the end. -/
def balanced : Nat → List Text → Bool
  | depth,[] => depth == 0
  | depth,raw::rest => match classify raw,depth with
    | .opening _,depth => balanced (depth + 1) rest
    | .closing,0 => false
    | .closing,depth + 1 => balanced depth rest
    | _,depth => balanced depth rest

/-- Lines that close as many blocks as `lasts` has entries after the first, with
what stands at each level described; `last` entries as in `Describes`. -/
inductive Unwinds : List Text → List Text → Prop where
  | level {last : Text} {lines : List Text} {blocks : List (Rose Text)} (described : Describes last lines blocks) :
      Unwinds [last] lines
  | close {last outer close : Text} {lasts inner rest : List Text} {nested : List (Rose Text)}
      (described : Describes last inner nested) (closing : classify close = .closing)
      (next : Unwinds (outer::lasts) rest) : Unwinds (last::outer::lasts) (inner ++ close::rest)

theorem Unwinds.blank {last raw : Text} {lasts rest : List Text} (line : classify raw = .blank)
    (unwinds : Unwinds (last::lasts) rest) : Unwinds (last::lasts) (raw::rest) := by
  cases unwinds with
  | level described => exact Unwinds.level (Describes.blank line described)
  | close described closing next => exact Unwinds.close (Describes.blank line described) closing next

theorem Unwinds.directive {last raw text : Text} {lasts rest : List Text} (line : classify raw = .directive text)
    (unwinds : Unwinds (text::lasts) rest) : Unwinds (last::lasts) (raw::rest) := by
  cases unwinds with
  | level described => exact Unwinds.level (Describes.directive line described)
  | close described closing next => exact Unwinds.close (Describes.directive line described) closing next

theorem Unwinds.opening {last raw name : Text} {lasts rest : List Text} (line : classify raw = .opening name)
    (unwinds : Unwinds ([]::name::lasts) rest) : Unwinds (last::lasts) (raw::rest) := by
  cases unwinds with
  | @close _ _ close _ inner after _ inside closing next =>
    cases next with
    | level described => exact Unwinds.level (Describes.block line inside closing described)
    | @close _ outer further lasts second later _ described further_ following =>
      have joined : raw::(inner ++ close::(second ++ further::later)) =
          (raw::(inner ++ close::second)) ++ further::later := by simp
      rw [joined]
      exact Unwinds.close (Describes.block line inside closing described) further_ following

theorem unwinds_of_balanced (lines : List Text) (last : Text) (lasts : List Text)
    (valid : ∀ raw ∈ lines, classify raw ≠ .invalid) (even : balanced lasts.length lines = true) :
    Unwinds (last::lasts) lines := by
  induction lines generalizing last lasts with
  | nil =>
    simp only [balanced,beq_iff_eq,List.length_eq_zero_iff] at even
    subst lasts
    exact Unwinds.level Describes.done
  | cons raw rest ih =>
    have later : ∀ other ∈ rest, classify other ≠ .invalid := fun other member => valid other (by simp [member])
    cases line : classify raw with
    | blank =>
      simp only [balanced,line] at even
      exact (ih last lasts later even).blank line
    | directive text =>
      simp only [balanced,line] at even
      exact (ih text lasts later even).directive line
    | opening name =>
      simp only [balanced,line] at even
      exact (ih [] (name::lasts) later even).opening line
    | closing =>
      cases lasts with
      | nil => simp [balanced,line] at even
      | cons outer lasts =>
        simp only [balanced,line,List.length_cons] at even
        have close : Unwinds (last::outer::lasts) ([] ++ raw::rest) :=
          Unwinds.close Describes.done line (ih outer lasts later even)
        exact close
    | invalid => exact absurd line (valid raw (by simp))

theorem Scope.action_blank (confs : List (RuntimeConf Conf)) (scope : Scope Conf) {raw : Text}
    (line : classify raw = .blank) : scope.action confs raw = .skip := by
  rw [Scope.action,line]

theorem Scope.action_closing (confs : List (RuntimeConf Conf)) (scope : Scope Conf) {raw : Text}
    (line : classify raw = .closing) : scope.action confs raw = .close := by
  rw [Scope.action,line]

theorem Scope.action_invalid (confs : List (RuntimeConf Conf)) (scope : Scope Conf) {raw : Text}
    (line : classify raw = .invalid) : scope.action confs raw = .fail := by
  rw [Scope.action,line]

theorem Scope.action_directive (confs : List (RuntimeConf Conf)) (scope : Scope Conf) {raw text : Text}
    (line : classify raw = .directive text) (passes : scope.action confs raw ≠ .fail) :
    ∃ runtime write, scope.runtime = some runtime ∧ scope.bracketsLayers ≠ 0 ∧
      scope.action confs raw = .store write text := by
  unfold Scope.action at passes ⊢
  rw [line] at passes ⊢
  dsimp only at passes ⊢
  split at passes
  · rename_i layers runtime name value layered found _
    split at passes
    · rename_i write stored
      exact ⟨runtime,write,found,by rw [layered]; exact Nat.succ_ne_zero _,rfl⟩
    · exact absurd rfl passes
  · exact absurd rfl passes

theorem Scope.action_opening (confs : List (RuntimeConf Conf)) (scope : Scope Conf) {raw name : Text}
    (line : classify raw = .opening name) (passes : scope.action confs raw ≠ .fail) :
    ∃ runtime, runtime.confName = (if name = [] then scope.strLineLast else name) ∧
      scope.action confs raw = .openBlock runtime name := by
  unfold Scope.action at passes ⊢
  rw [line] at passes ⊢
  dsimp only at passes ⊢
  generalize (if name = [] then scope.strLineLast else name) = n at passes ⊢
  by_cases empty : n = []
  · rw [if_pos empty] at passes
    exact absurd rfl passes
  · rw [if_neg empty] at passes ⊢
    split at passes
    · rename_i runtime found
      exact ⟨runtime,by simpa using List.find?_some found,rfl⟩
    · exact absurd rfl passes

theorem Parser.run_passes {confs : List (RuntimeConf Conf)} {p : Parser Conf} {raw : Text} {rest : List Text}
    (accepted : (p.run confs (raw::rest)).1 = true) : p.current.scope.action confs raw ≠ .fail := by
  intro fails
  simp only [Parser.run,Parser.line,fails] at accepted
  cases accepted

def Heap.name (h : Heap Conf) (n : Nat) : Text := (h.nodes n).name

theorem Heap.setConf_name (h : Heap Conf) (b : Nat) (write : Conf → Conf) : (h.setConf b write).name = h.name := by
  funext n
  simp only [Heap.name,Heap.setConf]
  by_cases same : n = b
  · subst n
    rw [Function.update_self]
  · rw [Function.update_of_ne same]

theorem Heap.setLink_name (h : Heap Conf) (b : Nat) (side : Bool) (pointer : Option Nat) :
    (h.setLink b side pointer).name = h.name := by
  funext n
  simp only [Heap.name,Heap.setLink]
  by_cases same : n = b
  · subst n
    rw [Function.update_self,Node.setLink]
    split <;> rfl
  · rw [Function.update_of_ne same]

theorem Parser.openBlock_name (p : Parser Conf) (runtime : RuntimeConf Conf) (strLine : Text) (n : Nat) :
    (p.openBlock runtime strLine).heap.name n = if n = p.heap.next then runtime.confName else p.heap.name n := by
  simp only [Parser.openBlock,Heap.setLink_name]
  simp only [Heap.name,Heap.create]
  by_cases same : n = p.heap.next
  · subst n
    rw [Function.update_self,if_pos rfl]
  · rw [Function.update_of_ne same,if_neg same]

/-- Between `p` and `last` the reader built the nodes `ids` for `blocks`, hung into
the link that was next in `p`, and touched no other link of the older nodes. -/
structure Parser.Builds (p last : Parser Conf) (blocks : List (Rose Text)) (ids : List Nat) : Prop where
  callers : last.callers = p.callers
  answer : blocks = [] → last.current.scope.ret = p.current.scope.ret
  grows : p.heap.next ≤ last.heap.next
  kept : ∀ n side, n < p.heap.next → n ≠ p.current.b ∨ side ≠ p.child → last.heap.link side n = p.heap.link side n
  names : ∀ n, n < p.heap.next → last.heap.name n = p.heap.name n
  fresh : ∀ n ∈ ids, p.heap.next ≤ n ∧ n < last.heap.next
  distinct : ids.Nodup
  shown : (blocks = [] → p.heap.link p.child p.current.b = none) →
    Shows last.heap.link last.heap.name (last.heap.link p.child p.current.b) ids blocks

theorem Parser.Builds.refl (p : Parser Conf) : p.Builds p [] [] where
  callers := rfl
  answer := fun _ => rfl
  grows := Nat.le_refl _
  kept := fun _ _ _ _ => rfl
  names := fun _ _ => rfl
  fresh := fun _ member => by cases member
  distinct := List.nodup_nil
  shown := by
    intro free
    rw [free rfl]
    exact Shows.leaf

theorem Parser.Builds.after {p next last : Parser Conf} {blocks : List (Rose Text)} {ids : List Nat}
    (builds : next.Builds last blocks ids) (callers : next.callers = p.callers) (allocated : next.heap.next = p.heap.next)
    (links : next.heap.link = p.heap.link) (names : next.heap.name = p.heap.name) (child : next.child = p.child)
    (place : next.current.b = p.current.b) (ret : next.current.scope.ret = p.current.scope.ret) :
    p.Builds last blocks ids where
  callers := builds.callers.trans callers
  answer := fun none => (builds.answer none).trans ret
  grows := allocated ▸ builds.grows
  kept := by
    intro n side old other
    rw [← links]
    apply builds.kept n side (allocated ▸ old)
    rw [place,child]
    exact other
  names := by
    intro n old
    rw [← names]
    exact builds.names n (allocated ▸ old)
  fresh := by
    rw [← allocated]
    exact builds.fresh
  distinct := builds.distinct
  shown := by
    rw [← links,← child,← place]
    exact builds.shown

/-- The state in which the caller goes on after a nested block. -/
def Parser.resume (p : Parser Conf) (caller : Activation Conf) (callers : List (Activation Conf)) : Parser Conf :=
  {p with child := false,current := caller,callers := callers}

theorem Parser.Builds.block {p inner last : Parser Conf} {runtime : RuntimeConf Conf} {strLine : Text}
    {nested blocks : List (Rose Text)} {below beside : List Nat} (place : p.current.b < p.heap.next)
    (inside : (p.openBlock runtime strLine).Builds inner nested below)
    (next : (inner.resume ⟨p.current.scope.resumed runtime strLine,p.heap.next⟩ p.callers).Builds last blocks beside) :
    p.Builds last (.node runtime.confName nested::blocks) (p.heap.next::(below ++ beside)) := by
  have older : p.current.b ≠ p.heap.next := Nat.ne_of_lt place
  have bare : ∀ side, (p.openBlock runtime strLine).heap.link side p.heap.next = none := fun side =>
    (Parser.openBlock_link p runtime strLine side _ (Or.inl (Ne.symm older))).trans (if_pos rfl)
  have opened : (p.openBlock runtime strLine).heap.next = p.heap.next + 1 := rfl
  have resumed : (inner.resume ⟨p.current.scope.resumed runtime strLine,p.heap.next⟩ p.callers).heap = inner.heap := rfl
  have first := inside.grows
  have second := next.grows
  rw [opened] at first
  rw [resumed] at second
  -- the new node's own links, and those of every older node, through both parts
  have through : ∀ n side, n < p.heap.next + 1 → n ≠ p.heap.next →
      last.heap.link side n = (p.openBlock runtime strLine).heap.link side n := by
    intro n side old other
    rw [next.kept n side (Nat.lt_of_lt_of_le old first) (Or.inl other)]
    exact inside.kept n side old (Or.inl other)
  have child : last.heap.link true p.heap.next = inner.heap.link true p.heap.next :=
    next.kept p.heap.next true (Nat.lt_of_lt_of_le (Nat.lt_succ_self _) first) (Or.inr Bool.noConfusion)
  have sibling : inner.heap.link false p.heap.next = none := by
    rw [inside.kept p.heap.next false (Nat.lt_succ_self _) (Or.inr Bool.noConfusion)]
    exact bare false
  have named : ∀ n, n < p.heap.next + 1 → last.heap.name n = (p.openBlock runtime strLine).heap.name n := by
    intro n old
    rw [next.names n (Nat.lt_of_lt_of_le old first)]
    exact inside.names n old
  have young : ∀ n ∈ below, p.heap.next < n ∧ n < inner.heap.next := inside.fresh
  have younger : ∀ n ∈ beside, inner.heap.next ≤ n ∧ n < last.heap.next := next.fresh
  refine ⟨next.callers,fun none => absurd none (List.cons_ne_nil _ _),by omega,?_,?_,?_,?_,?_⟩
  · intro n side old other
    rw [through n side (Nat.lt_succ_of_lt old) (Nat.ne_of_lt old),Parser.openBlock_link p runtime strLine side n other,
      if_neg (Nat.ne_of_lt old)]
  · intro n old
    rw [named n (Nat.lt_succ_of_lt old),Parser.openBlock_name,if_neg (Nat.ne_of_lt old)]
  · intro n member
    rcases List.mem_cons.mp member with rfl | member
    · omega
    · rcases List.mem_append.mp member with lower | later
      · have := young n lower
        omega
      · have := younger n later
        omega
  · refine List.nodup_cons.mpr ⟨?_,List.nodup_append.mpr ⟨inside.distinct,next.distinct,?_⟩⟩
    · intro member
      rcases List.mem_append.mp member with lower | later
      · exact Nat.lt_irrefl _ (young _ lower).1
      · have := (younger _ later).1
        omega
    · intro n lower m later same
      have := (young n lower).2
      have := (younger m later).1
      omega
  · intro _
    have root : last.heap.link p.child p.current.b = some p.heap.next := by
      rw [through _ _ (Nat.lt_succ_of_lt place) older]
      exact Parser.openBlock_set p runtime strLine
    have label : last.heap.name p.heap.next = runtime.confName := by
      rw [named _ (Nat.lt_succ_self _),Parser.openBlock_name,if_pos rfl]
    rw [root,← label]
    apply Shows.node
    · rw [child]
      refine (inside.shown fun _ => bare true).congr ?_ ?_
      · intro n lower side
        exact next.kept n side (young n lower).2 (Or.inl (Nat.ne_of_gt (young n lower).1))
      · exact fun n lower => next.names n (young n lower).2
    · exact next.shown fun _ => sibling

theorem Describes.runs {confs : List (RuntimeConf Conf)} {last : Text} {lines : List Text} {blocks : List (Rose Text)}
    (described : Describes last lines blocks) {p : Parser Conf} (same : p.current.scope.strLineLast = last)
    (place : p.current.b < p.heap.next) (rest : List Text) (accepted : (p.run confs (lines ++ rest)).1 = true) :
    ∃ final ids, p.run confs (lines ++ rest) = final.run confs rest ∧ p.Builds final blocks ids := by
  induction described generalizing p rest with
  | done => exact ⟨p,[],rfl,Parser.Builds.refl p⟩
  | @blank last raw lines blocks line next ih =>
    have action := p.current.scope.action_blank confs line
    have step : p.run confs (raw::lines ++ rest) = p.run confs (lines ++ rest) := by
      simp only [List.cons_append,Parser.run,Parser.line,action]
    rw [step] at accepted ⊢
    exact ih same place rest accepted
  | @directive last raw text lines blocks line next ih =>
    obtain ⟨_,write,_,_,action⟩ := p.current.scope.action_directive confs line (Parser.run_passes accepted)
    let stored : Parser Conf := {p with
      heap := p.heap.setConf p.current.b write
      current := {p.current with scope := {p.current.scope with strLineLast := text}}}
    have step : p.run confs (raw::lines ++ rest) = stored.run confs (lines ++ rest) := by
      simp only [List.cons_append,Parser.run,Parser.line,action,stored]
    rw [step] at accepted ⊢
    obtain ⟨final,ids,ran,builds⟩ := ih (p := stored) rfl place rest accepted
    exact ⟨final,ids,ran,builds.after rfl rfl (Heap.setConf_link _ _ _) (Heap.setConf_name _ _ _) rfl rfl rfl⟩
  | @block last raw close name inner lines nested blocks line inside closing next insideIh nextIh =>
    obtain ⟨runtime,named,action⟩ := p.current.scope.action_opening confs line (Parser.run_passes accepted)
    rw [same] at named
    have flat : raw::(inner ++ close::lines) ++ rest = raw::(inner ++ close::(lines ++ rest)) := by simp
    have opening : p.run confs (raw::(inner ++ close::(lines ++ rest))) =
        (p.openBlock runtime name).run confs (inner ++ close::(lines ++ rest)) := by
      simp only [Parser.run,Parser.line,action]
    rw [flat,opening] at accepted ⊢
    obtain ⟨final,below,ran,builds⟩ := insideIh (p := p.openBlock runtime name) rfl (Nat.lt_succ_self _) _ accepted
    let after := final.resume ⟨p.current.scope.resumed runtime name,p.heap.next⟩ p.callers
    have closes : final.run confs (close::(lines ++ rest)) = after.run confs (lines ++ rest) := by
      have callers : final.callers = ⟨p.current.scope.resumed runtime name,p.heap.next⟩::p.callers := builds.callers
      simp only [Parser.run,Parser.line,final.current.scope.action_closing confs closing,callers]
      rfl
    rw [ran,closes] at accepted ⊢
    have allocated : p.heap.next < after.heap.next := Nat.lt_of_lt_of_le (Nat.lt_succ_self _) builds.grows
    obtain ⟨last,beside,finished,nextBuilds⟩ := nextIh (p := after) rfl allocated rest accepted
    refine ⟨last,p.heap.next::(below ++ beside),finished,?_⟩
    rw [← named]
    exact Parser.Builds.block place builds nextBuilds

/-- Lines that are accepted and close no more than was opened hold no invalid one. -/
theorem recognise_valid (confs : List (RuntimeConf Conf)) (lines : List Text) (opened : Bool) (scope : Scope Conf)
    (callers : List (Scope Conf)) (even : balanced callers.length lines = true)
    (accepted : (recognise confs opened scope callers lines).1 = true) : ∀ raw ∈ lines, classify raw ≠ .invalid := by
  induction lines generalizing opened scope callers with
  | nil => exact fun _ member => by cases member
  | cons raw rest ih =>
    have passes : scope.action confs raw ≠ .fail := by
      intro fails
      simp only [recognise,fails] at accepted
      cases accepted
    have head : classify raw ≠ .invalid := fun invalid => passes (scope.action_invalid confs invalid)
    have tail : ∀ other ∈ rest, classify other ≠ .invalid := by
      cases line : classify raw with
      | blank =>
        simp only [balanced,line] at even
        simp only [recognise,scope.action_blank confs line] at accepted
        exact ih _ _ _ even accepted
      | directive text =>
        obtain ⟨_,write,_,_,action⟩ := scope.action_directive confs line passes
        simp only [balanced,line] at even
        simp only [recognise,action] at accepted
        exact ih _ _ _ even accepted
      | opening name =>
        obtain ⟨runtime,_,action⟩ := scope.action_opening confs line passes
        simp only [balanced,line] at even
        simp only [recognise,action] at accepted
        exact ih _ _ (scope.resumed runtime name::callers) even accepted
      | closing =>
        simp only [recognise,scope.action_closing confs line] at accepted
        cases callers with
        | nil => simp [balanced,line] at even
        | cons caller callers =>
          simp only [balanced,line,List.length_cons] at even
          exact ih _ _ _ even accepted
      | invalid => exact absurd line head
    intro other member
    rcases List.mem_cons.mp member with rfl | later
    · exact head
    · exact tail other later

/-- The parse of accepted, balanced lines: they describe blocks, and the nodes
below the root show the blocks they describe. -/
theorem parseBlock_shows (confs : List (RuntimeConf Conf)) (heap : Heap Conf) (positive : 0 < heap.next)
    (lines : List Text) (even : balanced 0 lines = true) (accepted : (parseBlock confs heap lines).1 = true) :
    (∃ blocks, Describes [] lines blocks) ∧ ∀ blocks, Describes [] lines blocks →
      ∃ ids, Shows (parseBlock confs heap lines).2.link (parseBlock confs heap lines).2.name
        (parseBlock confs heap lines).2.root ids blocks ∧ ids.Nodup ∧
        ∀ n ∈ ids, heap.next ≤ n ∧ n < (parseBlock confs heap lines).2.next := by
  let start : Parser Conf := ⟨heap,true,⟨Scope.start,0⟩,[]⟩
  have valid : ∀ raw ∈ lines, classify raw ≠ .invalid := by
    apply recognise_valid confs lines false Scope.start [] even
    exact (Parser.run_fst confs lines start false).symm.trans accepted
  constructor
  · have unwinds := unwinds_of_balanced lines [] [] valid even
    cases unwinds with
    | level described => exact ⟨_,described⟩
  · intro blocks described
    have whole : (start.run confs (lines ++ [])).1 = true := by
      rw [List.append_nil]
      exact accepted
    obtain ⟨final,ids,ran,builds⟩ := described.runs (p := start) rfl positive [] whole
    rw [List.append_nil] at ran
    have ended : parseBlock confs heap lines = (final.current.scope.ret,final.heap) := ran
    rw [ended] at accepted ⊢
    refine ⟨ids,?_,builds.distinct,builds.fresh⟩
    -- a file without blocks leaves the reader's first activation with its failure
    apply builds.shown
    intro none
    have answer : final.current.scope.ret = false := builds.answer none
    rw [answer] at accepted
    cases accepted

/-- A released tree lies in any set of nodes that its links do not leave, and
only the links of such nodes are cleared. -/
theorem Heap.release_outside (inside : Nat → Prop) (fuel : Nat) (h : Heap Conf) (pointer : Option Nat)
    (closed : ∀ n side m, inside n → h.link side n = some m → inside m) (start : ∀ n, pointer = some n → inside n) :
    (∀ n side m, inside n → (h.release fuel pointer).link side n = some m → inside m) ∧
      ∀ n side, ¬ inside n → (h.release fuel pointer).link side n = h.link side n := by
  induction fuel generalizing h pointer with
  | zero => cases pointer <;> exact ⟨closed,fun _ _ _ => rfl⟩
  | succ fuel ih =>
    cases pointer with
    | none => exact ⟨closed,fun _ _ _ => rfl⟩
    | some c =>
      have member : inside c := start c rfl
      have cleared : ∀ (g : Heap Conf) (side : Bool), (∀ n other m, inside n → g.link other n = some m → inside m) →
          ∀ n other m, inside n → (g.setLink c side none).link other n = some m → inside m := by
        intro g side kept n other m held points
        by_cases same : n = c ∧ other = side
        · obtain ⟨rfl,rfl⟩ := same
          rw [Heap.setLink_same] at points
          cases points
        · rw [Heap.setLink_other g none (by tauto)] at points
          exact kept n other m held points
      have apart : ∀ (g : Heap Conf) (side : Bool) (n : Nat) (other : Bool), ¬ inside n →
          (g.setLink c side none).link other n = g.link other n :=
        fun g side n other out => Heap.setLink_other g none (Or.inl fun same => out (same ▸ member))
      obtain ⟨belowClosed,belowKept⟩ := ih h (h.link true c) closed (fun n points => closed c true n member points)
      have lower := cleared _ true belowClosed
      obtain ⟨besideClosed,besideKept⟩ := ih _ _ lower (fun n points => lower c false n member points)
      refine ⟨cleared _ false besideClosed,?_⟩
      intro n side out
      change (Heap.setLink _ c false none).link side n = h.link side n
      rw [apart _ false n side out,besideKept n side out,apart _ true n side out,belowKept n side out]

def Heap.Known (h : Heap Conf) (n : Nat) : Prop := 0 < n ∧ n < h.next

/-- Every pointer there is leads to an allocated node. -/
structure State.Closed (s : State Conf) : Prop where
  positive : 0 < s.heap.next
  links : ∀ n side m, s.heap.Known n → s.heap.link side n = some m → s.heap.Known m
  root : ∀ m, s.heap.root = some m → s.heap.Known m
  owned : ∀ k m, s.pointer k = some m → s.heap.Known m
  shared : ∀ k, s.current = some k → k < s.owned.length

theorem State.start_closed [Inhabited Conf] : (State.start : State Conf).Closed where
  positive := Nat.zero_lt_one
  links := fun _ side _ _ points => by cases side <;> cases points
  root := fun _ points => by cases points
  owned := fun k _ points => by simp [State.pointer,State.start] at points
  shared := fun _ loaded => by cases loaded

theorem State.Closed.setRoot {s : State Conf} (closed : s.Closed) :
    State.Closed {s with heap := s.heap.setLink 0 true none} where
  positive := closed.positive
  links := by
    intro n side m known points
    have other : n ≠ 0 := Nat.ne_of_gt known.1
    rw [Heap.setLink_other _ none (Or.inl other)] at points
    exact closed.links n side m known points
  root := by
    intro m points
    have cleared : (s.heap.setLink 0 true none).root = none := Heap.setLink_same s.heap 0 true none
    rw [cleared] at points
    cases points
  owned := closed.owned
  shared := closed.shared

theorem Heap.release_name (fuel : Nat) (h : Heap Conf) (pointer : Option Nat) : (h.release fuel pointer).name = h.name :=
  Heap.release_reads Heap.name (fun h c side => h.setLink_name c side none) (fun _ _ => rfl) fuel h pointer

theorem Heap.release_known {h : Heap Conf} (links : ∀ n side m, h.Known n → h.link side n = some m → h.Known m)
    (pointer : Option Nat) (known : ∀ m, pointer = some m → h.Known m) :
    (∀ n side m, h.Known n → (h.release h.next pointer).link side n = some m → h.Known m) ∧
      ∀ n side, ¬ h.Known n → (h.release h.next pointer).link side n = h.link side n :=
  Heap.release_outside h.Known h.next h pointer links known

theorem State.Closed.release {s : State Conf} (closed : s.Closed) (pointer : Option Nat)
    (known : ∀ m, pointer = some m → s.heap.Known m) :
    State.Closed {s with heap := s.heap.release s.heap.next pointer} := by
  obtain ⟨links,kept⟩ := Heap.release_known closed.links pointer known
  have next := Heap.release_next s.heap.next s.heap pointer
  have same : ∀ n, (s.heap.release s.heap.next pointer).Known n ↔ s.heap.Known n := by
    intro n
    rw [Heap.Known,Heap.Known,next]
  constructor
  · change 0 < (s.heap.release s.heap.next pointer).next
    rw [next]
    exact closed.positive
  · intro n side m held points
    exact (same m).mpr (links n side m ((same n).mp held) points)
  · intro m points
    have unmoved : (s.heap.release s.heap.next pointer).root = s.heap.root :=
      kept 0 true fun zero => Nat.lt_irrefl _ zero.1
    exact (same m).mpr (closed.root m (unmoved ▸ points))
  · intro k m points
    exact (same m).mpr (closed.owned k m points)
  · exact closed.shared

theorem State.Closed.letGoOf {s : State Conf} (closed : s.Closed) (last : Option Nat) : (s.letGoOf last).Closed := by
  cases last with
  | none => exact closed
  | some k =>
    change (s.letGo k).Closed
    unfold State.letGo
    split
    · exact closed
    · exact closed.release (s.pointer k) (closed.owned k)

theorem State.Closed.parsed {s : State Conf} (closed : s.Closed) {h : Heap Conf} {opened : Bool}
    (built : s.heap.Built h opened) : State.Closed {s with heap := h} := by
  cases opened with
  | false =>
    have same : h = s.heap := built
    subst same
    exact closed
  | true =>
    obtain ⟨extended,ids,holds⟩ := built
    have grows := extended.grows
    have positive := closed.positive
    have wider : ∀ n, s.heap.Known n → h.Known n := fun n known => ⟨known.1,Nat.lt_of_lt_of_le known.2 grows⟩
    have young : ∀ n ∈ ids, h.Known n := by
      intro n member
      obtain ⟨low,high⟩ := (holds.exactly n).mp member
      exact ⟨Nat.lt_of_lt_of_le positive low,high⟩
    constructor
    · exact Nat.lt_of_lt_of_le positive grows
    · intro n side m known points
      by_cases old : n < s.heap.next
      · have points : h.link side n = some m := points
        rw [extended.kept n side old (Nat.ne_of_gt known.1)] at points
        exact wider m (closed.links n side m ⟨known.1,old⟩ points)
      · have member : n ∈ ids := (holds.exactly n).mpr ⟨Nat.le_of_not_lt old,known.2⟩
        exact young m (holds.spans.inside member points)
    · intro m points
      have points : h.root = some m := points
      rw [holds.root] at points
      cases points
      exact young _ holds.spans.root_mem
    · intro k m points
      exact wider m (closed.owned k m points)
    · exact closed.shared

theorem State.Closed.confOpen {s : State Conf} (closed : s.Closed) (confs : List (RuntimeConf Conf))
    (file : Option Text) : (s.confOpen confs file).2.Closed := by
  cases file with
  | none => exact closed
  | some text =>
    have parsed := closed.parsed (parseBlock_built confs s.heap closed.positive text)
    unfold State.confOpen
    dsimp only
    split
    · apply State.Closed.letGoOf
      refine ⟨parsed.positive,parsed.links,parsed.root,?_,?_⟩
      · intro k m points
        have points : (s.owned ++ [(parseBlock confs s.heap (getlines text)).2.root])[k]?.join = some m := points
        rw [List.getElem?_append] at points
        split at points
        · exact parsed.owned k m points
        · rw [List.getElem?_singleton] at points
          split at points
          · exact parsed.root m points
          · cases points
      · intro k loaded
        cases loaded
        simp
    · exact parsed.setRoot.release _ parsed.root

theorem State.Closed.confClose {s : State Conf} (closed : s.Closed) : s.confClose.Closed := by
  have reset : State.Closed {s with current := none} := ⟨closed.positive,closed.links,closed.root,closed.owned,
    fun _ loaded => by cases loaded⟩
  exact (reset.letGoOf s.current).setRoot

theorem configuration_closed (confs : List (RuntimeConf Conf)) :
    (configuration confs).Keeps (fun _ _ => True) State.Closed := by
  intro s call next closed _ stepped
  change s.step confs call = some next at stepped
  cases call with
  | confOpen file =>
    cases stepped
    exact closed.confOpen confs file
  | confClose =>
    cases stepped
    exact closed.confClose
  | hold =>
    cases stepped
    exact ⟨closed.positive,closed.links,closed.root,closed.owned,closed.shared⟩
  | drop k =>
    simp only [State.step] at stepped
    split at stepped <;> cases stepped
    have dropped : State.Closed {s with holders := s.holders.erase k} :=
      ⟨closed.positive,closed.links,closed.root,closed.owned,closed.shared⟩
    exact dropped.letGoOf (some k)

theorem Heap.Built.kept {base h : Heap Conf} {opened : Bool} (built : base.Built h opened) (n : Nat) (side : Bool)
    (known : base.Known n) : h.link side n = base.link side n := by
  cases opened with
  | false =>
    have same : h = base := built
    rw [same]
  | true => exact built.1.kept n side known.2 (Nat.ne_of_gt known.1)

theorem State.letGoOf_kept {s : State Conf} (last : Option Nat) {bound : Nat}
    (links : ∀ n side m, 0 < n ∧ n < bound → s.heap.link side n = some m → 0 < m ∧ m < bound)
    (owned : ∀ k, last = some k → ∀ m, s.pointer k = some m → 0 < m ∧ m < bound) :
    (s.letGoOf last).heap.name = s.heap.name ∧
      ∀ n side, n = 0 ∨ bound ≤ n → (s.letGoOf last).heap.link side n = s.heap.link side n := by
  cases last with
  | none => exact ⟨rfl,fun _ _ _ => rfl⟩
  | some k =>
    change (s.letGo k).heap.name = _ ∧ ∀ n side, _ → (s.letGo k).heap.link side n = _
    unfold State.letGo
    split
    · exact ⟨rfl,fun _ _ _ => rfl⟩
    · obtain ⟨_,kept⟩ := Heap.release_outside (fun n => 0 < n ∧ n < bound) s.heap.next s.heap (s.pointer k)
        links (owned k rfl)
      refine ⟨Heap.release_name _ _ _,fun n side out => kept n side ?_⟩
      omega

def State.published (s : State Conf) (heap : Heap Conf) : State Conf :=
  {s with heap := heap,owned := s.owned ++ [heap.root],current := some s.owned.length}

theorem State.confOpen_accepted (confs : List (RuntimeConf Conf)) (s : State Conf) (text : Text)
    (accepted : (s.confOpen confs (some text)).1 = true) :
    (parseBlock confs s.heap (getlines text)).1 = true ∧
      (s.confOpen confs (some text)).2 = (s.published (parseBlock confs s.heap (getlines text)).2).letGoOf s.current := by
  unfold State.confOpen at accepted ⊢
  dsimp only at accepted ⊢
  split at accepted
  · rename_i parsed
    rw [if_pos parsed]
    exact ⟨parsed,rfl⟩
  · cases accepted

/-- After any calls, an accepted file whose braces balance has its blocks, and
nothing else, below the root: one node a block, with the block's name, nested
blocks from the first child on and in file order. -/
theorem conf_tree_shape [Inhabited Conf] (confs : List (RuntimeConf Conf)) (calls : List Call) (s : State Conf)
    (ran : (configuration confs).run State.start calls = some s) (text : Text)
    (accepted : (s.confOpen confs (some text)).1 = true) (even : balanced 0 (getlines text) = true) :
    (∃ blocks, Describes [] (getlines text) blocks) ∧ ∀ blocks, Describes [] (getlines text) blocks →
      ∃ ids, Shows (s.confOpen confs (some text)).2.heap.link (s.confOpen confs (some text)).2.heap.name
        (s.confOpen confs (some text)).2.heap.root ids blocks ∧ ids.Nodup := by
  have closed : s.Closed := (configuration_closed confs).run_all State.start_closed ran
  have built := parseBlock_built confs s.heap closed.positive text
  obtain ⟨parsed,opens⟩ := s.confOpen_accepted confs text accepted
  obtain ⟨described,shown⟩ := parseBlock_shows confs s.heap closed.positive (getlines text) even parsed
  refine ⟨described,?_⟩
  intro blocks describes
  obtain ⟨ids,shown,distinct,young⟩ := shown blocks describes
  let published := s.published (parseBlock confs s.heap (getlines text)).2
  have older : ∀ n side m, 0 < n ∧ n < s.heap.next → published.heap.link side n = some m → 0 < m ∧ m < s.heap.next := by
    intro n side m known points
    rw [show published.heap.link side n = s.heap.link side n from built.kept n side known] at points
    exact closed.links n side m known points
  have previous : ∀ k, s.current = some k → ∀ m, published.pointer k = some m → 0 < m ∧ m < s.heap.next := by
    intro k loaded m points
    have points : (s.owned ++ [(parseBlock confs s.heap (getlines text)).2.root])[k]?.join = some m := points
    rw [List.getElem?_append_left (closed.shared k loaded)] at points
    exact closed.owned k m points
  obtain ⟨names,kept⟩ := State.letGoOf_kept s.current older previous
  rw [opens]
  refine ⟨ids,?_,distinct⟩
  rw [show (published.letGoOf s.current).heap.root = published.heap.root from kept 0 true (Or.inl rfl),names]
  exact shown.congr (fun n member side => kept n side (Or.inr (young n member).1)) fun _ _ => rfl

def blockTypes : List (RuntimeConf Unit) := [⟨ascii "srt",(),[]⟩,⟨ascii "server",(),[]⟩,⟨ascii "app",(),[]⟩]

def nestedBlocks : Text := ascii "srt \x7b\nserver \x7b\n\x7d\nserver \x7b\napp \x7b\n\x7d\n\x7d\n\x7d\n"

theorem conf_tree_shape_nested :
    ∃ ids, Shows (State.start.confOpen blockTypes (some nestedBlocks)).2.heap.link
      (State.start.confOpen blockTypes (some nestedBlocks)).2.heap.name
      (State.start.confOpen blockTypes (some nestedBlocks)).2.heap.root ids
      [.node (ascii "srt") [.node (ascii "server") [],.node (ascii "server") [.node (ascii "app") []]]] ∧ ids.Nodup := by
  have shape := conf_tree_shape blockTypes [] State.start rfl nestedBlocks (by decide) (by decide)
  apply shape.2
  have closing : classify (ascii "\x7d") = .closing := by decide
  have opensSrt : classify (ascii "srt \x7b") = .opening (ascii "srt") := by decide
  have opensServer : classify (ascii "server \x7b") = .opening (ascii "server") := by decide
  have opensApp : classify (ascii "app \x7b") = .opening (ascii "app") := by decide
  have app : Describes [] (ascii "app \x7b"::([] ++ [ascii "\x7d"])) [.node (ascii "app") []] :=
    Describes.block opensApp Describes.done closing Describes.done
  have second : Describes (ascii "server") (ascii "server \x7b"::([ascii "app \x7b",ascii "\x7d"] ++ [ascii "\x7d"]))
      [.node (ascii "server") [.node (ascii "app") []]] :=
    Describes.block opensServer app closing Describes.done
  have first : Describes [] (ascii "server \x7b"::([] ++ ascii "\x7d"::[ascii "server \x7b",ascii "app \x7b",ascii "\x7d",
      ascii "\x7d"])) [.node (ascii "server") [],.node (ascii "server") [.node (ascii "app") []]] :=
    Describes.block opensServer Describes.done closing second
  have file : Describes [] (ascii "srt \x7b"::([ascii "server \x7b",ascii "\x7d",ascii "server \x7b",ascii "app \x7b",
      ascii "\x7d",ascii "\x7d"] ++ [ascii "\x7d"]))
      [.node (ascii "srt") [.node (ascii "server") [],.node (ascii "server") [.node (ascii "app") []]]] :=
    Describes.block opensSrt first closing Describes.done
  exact file

end SrtLiveServer.Conf
