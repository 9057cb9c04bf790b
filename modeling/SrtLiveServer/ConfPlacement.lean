import SrtLiveServer.ConfTree

/-! Where the directives of a configuration file go. By the braces a directive
belongs to the innermost block open around it; the reader stores it in the node
its current activation holds, which is that block's only until a nested block
has been read. -/
namespace SrtLiveServer.Conf
open Bytes Transition

variable {Conf : Type}

/-- A directive line that was carried out: the node written to, the block type
whose commands it was checked against, and the write. -/
structure Store (Conf : Type) where
  line : Nat
  node : Nat
  checked : RuntimeConf Conf
  write : Conf → Conf

def Parser.store (confs : List (RuntimeConf Conf)) (line : Nat) (p : Parser Conf) (raw : Text) : List (Store Conf) :=
  match p.current.scope.action confs raw,p.current.scope.runtime with
  | .store write _,some runtime => [⟨line,p.current.b,runtime,write⟩]
  | _,_ => []

def Parser.stores (confs : List (RuntimeConf Conf)) : Nat → Parser Conf → List Text → List (Store Conf)
  | _,_,[] => []
  | line,p,raw::rest => p.store confs line raw ++ match p.line confs raw with
    | .running next => next.stores confs (line + 1) rest
    | .returned _ _ => []

def written (n : Nat) (conf : Conf) : List (Store Conf) → Conf
  | [] => conf
  | store::rest => written n (if store.node = n then store.write conf else conf) rest

def Line.isDirective : Line → Bool
  | .directive _ => true
  | _ => false

/-- For each directive line the innermost block open there, by the braces alone.
Blocks are numbered from `next` on in the order they open, which is how the heap
numbers their nodes. -/
def placement : Nat → List Nat → Nat → List Text → List (Nat × Option Nat)
  | _,_,_,[] => []
  | next,blocks,line,raw::rest => match classify raw with
    | .directive _ => (line,blocks.head?)::placement next blocks (line + 1) rest
    | .opening _ => placement (next + 1) (next::blocks) (line + 1) rest
    | .closing => placement next blocks.tail (line + 1) rest
    | _ => placement next blocks (line + 1) rest

/-- Between a directive and the opening brace of its block no nested block has
ended, and no directive stands behind a closing brace that has no opening one.
`nested` is whether the last brace was a closing one, `depth` the open blocks. -/
def ordered : Bool → Nat → List Text → Bool
  | _,_,[] => true
  | nested,depth,raw::rest => match classify raw,depth with
    | .directive _,depth => !nested && ordered nested depth rest
    | .opening _,depth => ordered false (depth + 1) rest
    | .closing,0 => rest.all fun line => !(classify line).isDirective
    | .closing,depth + 1 => ordered true depth rest
    | _,depth => ordered nested depth rest

def Heap.typeOf (confs : List (RuntimeConf Conf)) (h : Heap Conf) (n : Nat) : Option (RuntimeConf Conf) :=
  confs.find? fun runtime => runtime.confName = h.name n

def Heap.conf (h : Heap Conf) (n : Nat) : Conf := (h.nodes n).conf

/-- Every directive line of the file is stored in the node of its innermost block
and nowhere else, checked against the commands of that node's type, and the new
nodes hold their type's defaults with these writes. -/
def State.Placed (confs : List (RuntimeConf Conf)) (s : State Conf) (text : Text) : Prop :=
  let stores := Parser.stores confs 1 ⟨s.heap,true,⟨Scope.start,0⟩,[]⟩ (getlines text)
  let heap := (s.confOpen confs (some text)).2.heap
  stores.map (fun store => (store.line,some store.node)) = placement s.heap.next [] 1 (getlines text) ∧
    (∀ store ∈ stores, heap.typeOf confs store.node = some store.checked) ∧
    ∀ n, s.heap.next ≤ n → n < heap.next →
      ∃ runtime, heap.typeOf confs n = some runtime ∧ heap.conf n = written n runtime.createFn stores

theorem placement_eq_nil (lines : List Text) (next : Nat) (blocks : List Nat) (line : Nat) :
    placement next blocks line lines = [] ↔ (lines.all fun raw => !(classify raw).isDirective) = true := by
  induction lines generalizing next blocks line with
  | nil => simp [placement]
  | cons raw rest ih =>
    cases kind : classify raw with
    | directive text => simp [placement,kind,Line.isDirective]
    | blank => simp only [placement,kind,List.all_cons,Line.isDirective,Bool.not_false,Bool.true_and,ih]
    | opening name => simp only [placement,kind,List.all_cons,Line.isDirective,Bool.not_false,Bool.true_and,ih]
    | closing => simp only [placement,kind,List.all_cons,Line.isDirective,Bool.not_false,Bool.true_and,ih]
    | invalid => simp only [placement,kind,List.all_cons,Line.isDirective,Bool.not_false,Bool.true_and,ih]

/-- The reader against the blocks open in the file: each caller holds the node of
the block its call is in, and the current activation the node of its own block
until a nested one has ended. -/
structure Parser.Tracks (p : Parser Conf) (nested : Bool) (blocks : List Nat) : Prop where
  callers : p.callers.map Activation.b = blocks
  distinct : blocks.Nodup
  known : ∀ n ∈ blocks, n < p.heap.next
  first : nested = false → blocks.head? = some p.current.b ∨ p.current.scope.runtime = none
  later : nested = true → p.current.b ∉ blocks

theorem Parser.Tracks.start (heap : Heap Conf) : Parser.Tracks ⟨heap,true,⟨Scope.start,0⟩,[]⟩ false [] where
  callers := rfl
  distinct := List.nodup_nil
  known := fun _ member => by cases member
  first := fun _ => Or.inr rfl
  later := fun impossible => by cases impossible

theorem Parser.Tracks.openBlock {p : Parser Conf} {nested : Bool} {blocks : List Nat} (tracks : p.Tracks nested blocks)
    (runtime : RuntimeConf Conf) (strLine : Text) : (p.openBlock runtime strLine).Tracks false (p.heap.next::blocks) where
  callers := by
    change p.heap.next::p.callers.map Activation.b = p.heap.next::blocks
    rw [tracks.callers]
  distinct := List.nodup_cons.mpr ⟨fun old => Nat.lt_irrefl _ (tracks.known _ old),tracks.distinct⟩
  known := by
    intro n member
    change n < p.heap.next + 1
    rcases List.mem_cons.mp member with rfl | old
    · exact Nat.lt_succ_self _
    · exact Nat.lt_succ_of_lt (tracks.known n old)
  first := fun _ => Or.inl rfl
  later := fun impossible => by cases impossible

theorem Parser.Tracks.resume {p : Parser Conf} {nested : Bool} {blocks : List Nat} (tracks : p.Tracks nested blocks)
    {caller : Activation Conf} {callers : List (Activation Conf)} (returns : p.callers = caller::callers) :
    (p.resume caller callers).Tracks true blocks.tail := by
  have stack := tracks.callers
  rw [returns,List.map_cons] at stack
  subst stack
  constructor
  · rfl
  · exact (List.nodup_cons.mp tracks.distinct).2
  · exact fun n member => tracks.known n (List.mem_cons_of_mem _ member)
  · intro impossible
    cases impossible
  · exact fun _ => (List.nodup_cons.mp tracks.distinct).1

/-- The lines of an accepted file go where the braces say exactly if they are ordered. -/
theorem Parser.Tracks.stores_iff {confs : List (RuntimeConf Conf)} (lines : List Text) {p : Parser Conf} {nested : Bool}
    {blocks : List Nat} (tracks : p.Tracks nested blocks) (line : Nat) (accepted : (p.run confs lines).1 = true) :
    (p.stores confs line lines).map (fun store => (store.line,some store.node)) = placement p.heap.next blocks line lines ↔
      ordered nested blocks.length lines = true := by
  induction lines generalizing p nested blocks line with
  | nil => simp [Parser.stores,placement,ordered]
  | cons raw rest ih =>
    have passes := Parser.run_passes accepted
    cases kind : classify raw with
    | blank =>
      have action := p.current.scope.action_blank confs kind
      simp only [Parser.run,Parser.line,action] at accepted
      simp only [Parser.stores,Parser.store,Parser.line,action,placement,ordered,kind,List.nil_append]
      exact ih tracks (line + 1) accepted
    | directive text =>
      obtain ⟨runtime,write,typed,_,action⟩ := p.current.scope.action_directive confs kind passes
      have stored : p.store confs line raw = [⟨line,p.current.b,runtime,write⟩] := by
        simp only [Parser.store,action,typed]
      simp only [Parser.run,Parser.line,action] at accepted
      simp only [Parser.stores,stored,Parser.line,action,placement,ordered,kind,List.singleton_append,
        List.map_cons,List.cons.injEq,Prod.mk.injEq,true_and,Bool.and_eq_true,Bool.not_eq_true']
      have next : Parser.Tracks {p with
          heap := p.heap.setConf p.current.b write
          current := {p.current with scope := {p.current.scope with strLineLast := text}}} nested blocks :=
        ⟨tracks.callers,tracks.distinct,tracks.known,tracks.first,tracks.later⟩
      have tail := ih next (line + 1) accepted
      -- the activation holds its own block's node until a nested block has ended
      have here : some p.current.b = blocks.head? ↔ nested = false := by
        cases nested with
        | false =>
          have own := (tracks.first rfl).resolve_right (by rw [typed]; exact Option.some_ne_none _)
          simp [own]
        | true =>
          have foreign := tracks.later rfl
          simp only [Bool.true_eq_false,iff_false]
          intro own
          exact foreign (List.mem_of_mem_head? own.symm)
      rw [here]
      exact and_congr Iff.rfl tail
    | opening name =>
      obtain ⟨runtime,_,action⟩ := p.current.scope.action_opening confs kind passes
      simp only [Parser.run,Parser.line,action] at accepted
      simp only [Parser.stores,Parser.store,Parser.line,action,placement,ordered,kind,List.nil_append]
      exact ih (tracks.openBlock runtime name) (line + 1) accepted
    | closing =>
      have action := p.current.scope.action_closing confs kind
      simp only [Parser.run,Parser.line,action] at accepted
      simp only [Parser.stores,Parser.store,Parser.line,action,placement,kind,List.nil_append]
      cases returns : p.callers with
      | nil =>
        have outside : blocks = [] := by
          have stack := tracks.callers
          rw [returns] at stack
          exact stack.symm
        subst outside
        simp only [ordered,kind,List.length_nil,List.map_nil,List.tail_nil]
        rw [eq_comm,placement_eq_nil]
      | cons caller callers =>
        simp only [returns] at accepted
        have next := tracks.resume returns
        have depth : blocks.length = blocks.tail.length + 1 := by
          have stack := tracks.callers
          rw [returns] at stack
          subst stack
          simp
        rw [depth]
        simp only [ordered,kind]
        exact ih next (line + 1) accepted
    | invalid => exact absurd (p.current.scope.action_invalid confs kind) passes

theorem Heap.setConf_conf (h : Heap Conf) (b : Nat) (write : Conf → Conf) (n : Nat) :
    (h.setConf b write).conf n = if b = n then write (h.conf n) else h.conf n := by
  simp only [Heap.conf,Heap.setConf]
  by_cases same : b = n
  · subst n
    rw [Function.update_self,if_pos rfl]
  · rw [Function.update_of_ne (Ne.symm same),if_neg same]

theorem Heap.setLink_conf (h : Heap Conf) (b : Nat) (side : Bool) (pointer : Option Nat) :
    (h.setLink b side pointer).conf = h.conf := by
  ext n
  simp only [Heap.conf,Heap.setLink]
  by_cases same : n = b
  · subst n
    rw [Function.update_self,Node.setLink]
    split <;> rfl
  · rw [Function.update_of_ne same]

theorem Parser.openBlock_conf (p : Parser Conf) (runtime : RuntimeConf Conf) (strLine : Text) (n : Nat) :
    (p.openBlock runtime strLine).heap.conf n = if n = p.heap.next then runtime.createFn else p.heap.conf n := by
  simp only [Parser.openBlock,Heap.setLink_conf]
  simp only [Heap.conf,Heap.create]
  by_cases same : n = p.heap.next
  · subst n
    rw [Function.update_self,if_pos rfl]
  · rw [Function.update_of_ne same,if_neg same]

theorem State.letGoOf_contents (s : State Conf) (last : Option Nat) :
    (s.letGoOf last).heap.name = s.heap.name ∧ (s.letGoOf last).heap.conf = s.heap.conf ∧
      (s.letGoOf last).heap.next = s.heap.next := by
  cases last with
  | none => exact ⟨rfl,rfl,rfl⟩
  | some k =>
    change (s.letGo k).heap.name = _ ∧ (s.letGo k).heap.conf = _ ∧ (s.letGo k).heap.next = _
    unfold State.letGo
    split
    · exact ⟨rfl,rfl,rfl⟩
    · refine ⟨Heap.release_name _ _ _,?_,Heap.release_next _ _ _⟩
      exact Heap.release_reads Heap.conf (fun h c side => h.setLink_conf c side none) (fun _ _ => rfl) _ _ _

/-- The stores filled `h` from `base` on: a node of `base` keeps its name, a new one
starts with its type's defaults, and each store was checked against its node's type. -/
structure Heap.Filled (confs : List (RuntimeConf Conf)) (base h : Heap Conf) (stores : List (Store Conf)) : Prop where
  older : ∀ n < base.next, h.name n = base.name n ∧ h.conf n = written n (base.conf n) stores
  newer : ∀ n, base.next ≤ n → n < h.next →
    ∃ runtime, h.typeOf confs n = some runtime ∧ h.conf n = written n runtime.createFn stores
  checked : ∀ store ∈ stores, h.typeOf confs store.node = some store.checked

theorem Heap.Filled.refl (confs : List (RuntimeConf Conf)) (h : Heap Conf) : h.Filled confs h [] where
  older := fun _ _ => ⟨rfl,rfl⟩
  newer := fun _ low high => absurd (Nat.lt_of_le_of_lt low high) (Nat.lt_irrefl _)
  checked := fun _ member => by cases member

theorem Heap.Filled.store {confs : List (RuntimeConf Conf)} {base h : Heap Conf} {store : Store Conf}
    {stores : List (Store Conf)} (filled : (base.setConf store.node store.write).Filled confs h stores)
    (allocated : store.node < base.next) (typed : base.typeOf confs store.node = some store.checked) :
    base.Filled confs h (store::stores) := by
  constructor
  · intro n old
    obtain ⟨name,conf⟩ := filled.older n old
    rw [Heap.setConf_name] at name
    rw [Heap.setConf_conf] at conf
    exact ⟨name,conf⟩
  · intro n low high
    have apart : store.node ≠ n := Nat.ne_of_lt (Nat.lt_of_lt_of_le allocated low)
    obtain ⟨runtime,type,conf⟩ := filled.newer n low high
    refine ⟨runtime,type,?_⟩
    rw [written,if_neg apart]
    exact conf
  · intro other member
    rcases List.mem_cons.mp member with rfl | later
    · obtain ⟨name,_⟩ := filled.older other.node allocated
      rw [Heap.typeOf,name,Heap.setConf_name]
      exact typed
    · exact filled.checked other later

theorem Heap.Filled.openBlock {confs : List (RuntimeConf Conf)} {p : Parser Conf} {h : Heap Conf} {stores : List (Store Conf)}
    {runtime : RuntimeConf Conf} {strLine : Text} (filled : (p.openBlock runtime strLine).heap.Filled confs h stores)
    (found : confs.find? (fun r => r.confName = runtime.confName) = some runtime) : p.heap.Filled confs h stores := by
  constructor
  · intro n old
    obtain ⟨name,conf⟩ := filled.older n (Nat.lt_succ_of_lt old)
    rw [Parser.openBlock_name,if_neg (Nat.ne_of_lt old)] at name
    rw [Parser.openBlock_conf,if_neg (Nat.ne_of_lt old)] at conf
    exact ⟨name,conf⟩
  · intro n low high
    rcases Nat.lt_or_ge p.heap.next n with later | first
    · exact filled.newer n later high
    · have fresh : n = p.heap.next := Nat.le_antisymm first low
      obtain ⟨name,conf⟩ := filled.older n (by rw [fresh]; exact Nat.lt_succ_self _)
      rw [Parser.openBlock_name,if_pos fresh] at name
      rw [Parser.openBlock_conf,if_pos fresh] at conf
      refine ⟨runtime,?_,conf⟩
      rw [Heap.typeOf,name]
      exact found
  · exact filled.checked

/-- An activation that has a block type holds a node of that type. -/
structure Parser.Typed (confs : List (RuntimeConf Conf)) (p : Parser Conf) : Prop where
  allocated : ∀ activation ∈ p.current::p.callers, activation.b < p.heap.next
  types : ∀ activation ∈ p.current::p.callers, ∀ runtime, activation.scope.runtime = some runtime →
    p.heap.typeOf confs activation.b = some runtime

theorem Parser.Typed.store {confs : List (RuntimeConf Conf)} {p : Parser Conf} (typed : p.Typed confs)
    (write : Conf → Conf) (strLine : Text) :
    Parser.Typed confs {p with
      heap := p.heap.setConf p.current.b write
      current := {p.current with scope := {p.current.scope with strLineLast := strLine}}} := by
  constructor
  · intro activation member
    rcases List.mem_cons.mp member with rfl | caller
    · exact typed.allocated p.current (List.mem_cons_self ..)
    · exact typed.allocated activation (List.mem_cons_of_mem _ caller)
  · intro activation member runtime found
    rw [Heap.typeOf,Heap.setConf_name]
    rcases List.mem_cons.mp member with rfl | caller
    · exact typed.types p.current (List.mem_cons_self ..) runtime found
    · exact typed.types activation (List.mem_cons_of_mem _ caller) runtime found

theorem Parser.Typed.resume {confs : List (RuntimeConf Conf)} {p : Parser Conf} (typed : p.Typed confs)
    {caller : Activation Conf} {callers : List (Activation Conf)} (returns : p.callers = caller::callers) :
    (p.resume caller callers).Typed confs := by
  have older : ∀ activation ∈ caller::callers, activation ∈ p.current::p.callers := by
    intro activation member
    rw [returns]
    exact List.mem_cons_of_mem _ member
  constructor
  · exact fun activation member => typed.allocated activation (older activation member)
  · exact fun activation member => typed.types activation (older activation member)

theorem Parser.Typed.openBlock {confs : List (RuntimeConf Conf)} {p : Parser Conf} (typed : p.Typed confs)
    {runtime : RuntimeConf Conf} (strLine : Text) (found : confs.find? (fun r => r.confName = runtime.confName) = some runtime) :
    (p.openBlock runtime strLine).Typed confs := by
  have fresh : (p.openBlock runtime strLine).heap.typeOf confs p.heap.next = some runtime := by
    rw [Heap.typeOf,Parser.openBlock_name,if_pos rfl]
    exact found
  have opened : ∀ activation ∈ (p.openBlock runtime strLine).current::(p.openBlock runtime strLine).callers,
      (activation.b = p.heap.next ∧ activation.scope.runtime = some runtime) ∨ activation ∈ p.current::p.callers := by
    intro activation member
    rcases List.mem_cons.mp member with rfl | member
    · exact Or.inl ⟨rfl,rfl⟩
    · rcases List.mem_cons.mp member with rfl | caller
      · exact Or.inl ⟨rfl,rfl⟩
      · exact Or.inr (List.mem_cons_of_mem _ caller)
  constructor
  · intro activation member
    change activation.b < p.heap.next + 1
    rcases opened activation member with ⟨new,_⟩ | old
    · rw [new]
      exact Nat.lt_succ_self _
    · exact Nat.lt_succ_of_lt (typed.allocated activation old)
  · intro activation member found_ named
    rcases opened activation member with ⟨new,type⟩ | old
    · rw [new,fresh,← type,named]
    · have below := typed.allocated activation old
      rw [Heap.typeOf,Parser.openBlock_name,if_neg (Nat.ne_of_lt below)]
      exact typed.types activation old found_ named

theorem Scope.action_found {confs : List (RuntimeConf Conf)} {scope : Scope Conf} {raw strLine : Text}
    {runtime : RuntimeConf Conf} (opens : scope.action confs raw = .openBlock runtime strLine) :
    confs.find? (fun r => r.confName = runtime.confName) = some runtime := by
  cases kind : classify raw with
  | blank => rw [scope.action_blank confs kind] at opens; cases opens
  | closing => rw [scope.action_closing confs kind] at opens; cases opens
  | invalid => rw [scope.action_invalid confs kind] at opens; cases opens
  | directive text =>
    have passes : scope.action confs raw ≠ .fail := by
      rw [opens]
      exact fun same => by cases same
    obtain ⟨_,_,_,_,stores⟩ := scope.action_directive confs kind passes
    rw [stores] at opens
    cases opens
  | opening name =>
    unfold Scope.action at opens
    rw [kind] at opens
    dsimp only at opens
    generalize (if name = [] then scope.strLineLast else name) = n at opens
    split at opens
    · cases opens
    · split at opens
      · rename_i found
        cases opens
        have named : runtime.confName = n := by simpa using List.find?_some found
        rw [named]
        exact found
      · cases opens

theorem Parser.Typed.run {confs : List (RuntimeConf Conf)} (lines : List Text) {p : Parser Conf} (typed : p.Typed confs)
    (line : Nat) (accepted : (p.run confs lines).1 = true) :
    p.heap.Filled confs (p.run confs lines).2 (p.stores confs line lines) := by
  induction lines generalizing p line with
  | nil => exact Heap.Filled.refl confs p.heap
  | cons raw rest ih =>
    have passes := Parser.run_passes accepted
    cases action : p.current.scope.action confs raw with
    | skip =>
      simp only [Parser.run,Parser.line,action] at accepted
      simp only [Parser.run,Parser.stores,Parser.store,Parser.line,action,List.nil_append]
      exact ih typed (line + 1) accepted
    | store write strLine =>
      obtain ⟨text,kind⟩ : ∃ text, classify raw = .directive text := by
        cases kind : classify raw with
        | directive text => exact ⟨text,rfl⟩
        | blank => rw [p.current.scope.action_blank confs kind] at action; cases action
        | closing => rw [p.current.scope.action_closing confs kind] at action; cases action
        | invalid => rw [p.current.scope.action_invalid confs kind] at action; cases action
        | opening name =>
          obtain ⟨runtime,_,opens⟩ := p.current.scope.action_opening confs kind passes
          rw [opens] at action
          cases action
      obtain ⟨runtime,_,type,_,_⟩ := p.current.scope.action_directive confs kind passes
      have stored : p.store confs line raw = [⟨line,p.current.b,runtime,write⟩] := by
        simp only [Parser.store,action,type]
      have here := List.mem_cons_self (a := p.current) (l := p.callers)
      simp only [Parser.run,Parser.line,action] at accepted
      simp only [Parser.run,Parser.stores,stored,Parser.line,action,List.singleton_append]
      apply Heap.Filled.store
      · exact ih (typed.store write strLine) (line + 1) accepted
      · exact typed.allocated p.current here
      · exact typed.types p.current here runtime type
    | openBlock runtime strLine =>
      have found := Scope.action_found action
      simp only [Parser.run,Parser.line,action] at accepted
      simp only [Parser.run,Parser.stores,Parser.store,Parser.line,action,List.nil_append]
      apply Heap.Filled.openBlock _ found
      · exact strLine
      · exact ih (typed.openBlock strLine found) (line + 1) accepted
    | close =>
      simp only [Parser.run,Parser.line,action] at accepted
      simp only [Parser.run,Parser.stores,Parser.store,Parser.line,action,List.nil_append]
      cases returns : p.callers with
      | nil => exact Heap.Filled.refl confs p.heap
      | cons caller callers =>
        simp only [returns] at accepted
        exact ih (typed.resume returns) (line + 1) accepted
    | fail => exact absurd action passes

/-- After any calls, the directives of an accepted file are stored where its braces
put them exactly if none of them follows a nested block of its own block, or a
closing brace without an opening one. -/
theorem directives_placed_iff [Inhabited Conf] (confs : List (RuntimeConf Conf)) (calls : List Call) (s : State Conf)
    (ran : (configuration confs).run State.start calls = some s) (text : Text)
    (accepted : (s.confOpen confs (some text)).1 = true) :
    s.Placed confs text ↔ ordered false 0 (getlines text) = true := by
  have closed : s.Closed := (configuration_closed confs).run_all State.start_closed ran
  obtain ⟨parsed,opens⟩ := s.confOpen_accepted confs text accepted
  obtain ⟨names,kept,next⟩ := (s.published (parseBlock confs s.heap (getlines text)).2).letGoOf_contents s.current
  let start : Parser Conf := ⟨s.heap,true,⟨Scope.start,0⟩,[]⟩
  have tracks : start.Tracks false [] := Parser.Tracks.start s.heap
  have typed : start.Typed confs := by
    constructor
    · intro activation member
      rw [List.mem_singleton.mp member]
      exact closed.positive
    · intro activation member runtime type
      rw [List.mem_singleton.mp member] at type
      cases type
  have placed := tracks.stores_iff (getlines text) 1 parsed
  have filled := typed.run (getlines text) 1 parsed
  have types : ∀ n, Heap.typeOf confs (s.confOpen confs (some text)).2.heap n =
      (parseBlock confs s.heap (getlines text)).2.typeOf confs n := by
    intro n
    rw [Heap.typeOf,opens,names]
    rfl
  constructor
  · intro ⟨stores,_,_⟩
    exact placed.mp stores
  · intro order
    refine ⟨placed.mpr order,?_,?_⟩
    · intro store member
      rw [types]
      exact filled.checked store member
    · intro n low high
      rw [opens,next] at high
      obtain ⟨runtime,type,conf⟩ := filled.newer n low high
      refine ⟨runtime,?_,?_⟩
      · rw [types]
        exact type
      · rw [opens,kept]
        exact conf

def logLevel : List (RuntimeConf Text) := [⟨ascii "srt",[],[⟨ascii "log_level",setString 1 2047 fun v _ => v⟩]⟩]

theorem directives_placed_iff_inside :
    State.start.Placed logLevel (ascii "srt \x7b\nlog_level info;\n\x7d\n") := by
  apply (directives_placed_iff logLevel [] State.start rfl _ (by decide)).mpr
  decide

/-- The reader keeps the block it has just read as its own, also behind the end of
the only block of the file. -/
theorem directive_outside_every_block_stored :
    (State.start.confOpen logLevel (some (ascii "srt \x7b\n\x7d\nlog_level info;\n"))).1 = true ∧
      ¬ State.start.Placed logLevel (ascii "srt \x7b\n\x7d\nlog_level info;\n") := by
  refine ⟨by decide,?_⟩
  intro ⟨stores,_⟩
  have outside : placement 1 [] 1 (getlines (ascii "srt \x7b\n\x7d\nlog_level info;\n")) = [(3,none)] := by decide
  have stored : (Parser.stores logLevel 1 ⟨State.start.heap,true,⟨Scope.start,0⟩,[]⟩
      (getlines (ascii "srt \x7b\n\x7d\nlog_level info;\n"))).map (fun store => (store.line,some store.node)) = [(3,some 1)] := by
    decide
  have clash := stored.symm.trans (stores.trans outside)
  cases clash

end SrtLiveServer.Conf
