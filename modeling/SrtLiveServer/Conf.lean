import SrtLiveServer.Bytes
import SrtLiveServer.LinkedTree
import Mathlib.Logic.Function.Basic

/-! The configuration reader of `conf.cpp` over the heap it builds its tree in.
The activations of `sls_conf_parse_block` are an explicit call stack: a block
opening calls, a closing line returns, and `child` is shared by reference. The
block types registered with the reader are a parameter. -/
namespace SrtLiveServer.Conf
open Bytes LinkedTree

variable {Conf : Type}

/-- A setter accepts or rejects a value by the value alone; `none` is a rejection. -/
structure Cmd (Conf : Type) where
  name : Text
  set : Text → Option (Conf → Conf)

structure RuntimeConf (Conf : Type) where
  confName : Text
  createFn : Conf
  confCmd : List (Cmd Conf)

structure Node (Conf : Type) where
  name : Text
  conf : Conf
  sibling : Option Nat
  child : Option Nat

def Node.link (node : Node Conf) (child : Bool) : Option Nat := if child then node.child else node.sibling

def Node.setLink (node : Node Conf) (child : Bool) (pointer : Option Nat) : Node Conf :=
  if child then {node with child := pointer} else {node with sibling := pointer}

/-- Node 0 is `sls_first_conf`; nodes from `next` on are not allocated yet. -/
structure Heap (Conf : Type) where
  nodes : Nat → Node Conf
  next : Nat
  released : List Nat

def Heap.link (h : Heap Conf) (child : Bool) (n : Nat) : Option Nat := (h.nodes n).link child

/-- `sls_conf_get_root_conf`. -/
def Heap.root (h : Heap Conf) : Option Nat := h.link true 0

def Heap.setLink (h : Heap Conf) (b : Nat) (child : Bool) (pointer : Option Nat) : Heap Conf :=
  {h with nodes := Function.update h.nodes b ((h.nodes b).setLink child pointer)}

def Heap.setConf (h : Heap Conf) (b : Nat) (write : Conf → Conf) : Heap Conf :=
  {h with nodes := Function.update h.nodes b {h.nodes b with conf := write (h.nodes b).conf}}

def Heap.create (h : Heap Conf) (runtime : RuntimeConf Conf) : Heap Conf :=
  {h with
    nodes := Function.update h.nodes h.next ⟨runtime.confName,runtime.createFn,none,none⟩
    next := h.next + 1}

/-- `sls_conf_release`; links lead to younger nodes, so the depth is below `next`. -/
def Heap.release : Nat → Heap Conf → Option Nat → Heap Conf
  | _,h,none => h
  | 0,h,some _ => h
  | fuel + 1,h,some c =>
    let below := (Heap.release fuel h (h.link true c)).setLink c true none
    let beside := (Heap.release fuel below (below.link false c)).setLink c false none
    {beside with released := beside.released ++ [c]}

def getlines (text : Text) : List Text :=
  let pieces := text.splitOnP fun c => c == byte '\n'
  if pieces.getLast? = some [] then pieces.dropLast else pieces

/-- Cuts a line at the first `#` outside quotes. -/
def stripComment : Bool → Bool → Text → Text
  | _,_,[] => []
  | squote,dquote,c::rest =>
    if c = byte '\x27' ∧ !dquote then c::stripComment (!squote) dquote rest
    else if c = byte '"' ∧ !squote then c::stripComment squote (!dquote) rest
    else if c = byte '#' ∧ !squote ∧ !dquote then []
    else c::stripComment squote dquote rest

def trim (text : Text) : Text := trimBy (fun c => c == byte ' ') text

inductive Line where
  | blank
  | directive (text : Text)
  | opening (name : Text)
  | closing
  | invalid
deriving DecidableEq

def classify (raw : Text) : Line :=
  let line := trim ((stripComment false false raw).filter fun c => c != byte '\t')
  match line.getLast? with
  | none => .blank
  | some last =>
    if last = byte ';' then .directive (trim line.dropLast)
    else if last = byte '\x7b' then .opening (trim line.dropLast)
    else if last = byte '\x7d' then (if line = [byte '\x7d'] then .closing else .invalid)
    else .invalid

def splitDirective (text : Text) : Option (Text × Text) :=
  match text.dropWhile fun c => c != byte ' ' with
  | [] => none
  | _::value => some (text.takeWhile fun c => c != byte ' ',trim value)

/-- One pair of quotes around the whole value. -/
def unquote : Text → Text
  | [] => []
  | first::rest =>
    if (first = byte '"' ∨ first = byte '\x27') ∧ rest.getLast? = some first then rest.dropLast else first::rest

/-- `sls_conf_set_string`, for a field that `store` writes. -/
def setString (min max : Nat) (store : Text → Conf → Conf) (v : Text) : Option (Conf → Conf) :=
  let text := unquote (cStr v)
  if text.length < min ∨ max < text.length then none else some (store text)

/-- Base ten, not limited to a `long`: the number and the rest, `none` without a digit. -/
def strtol (v : Text) : Option (Int × Text) :=
  let body := v.dropWhile isSpace
  let (negative,digits) := match body with
    | [] => (false,[])
    | sign::rest => if sign = byte '-' then (true,rest) else if sign = byte '+' then (false,rest) else (false,sign::rest)
  let number := digits.takeWhile isDigit
  let value : Int := number.foldl (fun n d => 10 * n + (d.toNat - 48)) 0
  if number = [] then none else some (if negative then -value else value,digits.dropWhile isDigit)

/-- `sls_conf_set_int`; what does not fit a `long` does not fit an `int` either. -/
def setInt (min max : Int) (store : Int → Conf → Conf) (v : Text) : Option (Conf → Conf) :=
  match strtol (cStr v) with
  | some (lv,[]) =>
    if lv < -2147483648 ∨ 2147483647 < lv then none
    else if lv < min ∨ max < lv then none
    else some (store lv)
  | _ => none

theorem setInt_eq {min max : Int} {store : Int → Conf → Conf} {v : Text} {write : Conf → Conf}
    (set : setInt min max store v = some write) : ∃ lv, min ≤ lv ∧ lv ≤ max ∧ write = store lv := by
  unfold setInt at set
  split at set
  · rename_i lv _
    split at set
    · cases set
    · split at set
      · cases set
      · rename_i inside
        cases set
        exact ⟨lv,by omega,by omega,rfl⟩
  · cases set

example : (strtol (ascii " -42x")) = some (-42,ascii "x") := by decide

/-- The locals of an activation that decide what a line does. -/
structure Scope (Conf : Type) where
  runtime : Option (RuntimeConf Conf)
  bracketsLayers : Nat
  strLineLast : Text
  ret : Bool

def Scope.start : Scope Conf := ⟨none,0,[],false⟩

def Scope.called (scope : Scope Conf) (runtime : RuntimeConf Conf) : Scope Conf :=
  ⟨some runtime,scope.bracketsLayers + 1,[],false⟩

def Scope.resumed (scope : Scope Conf) (runtime : RuntimeConf Conf) (strLine : Text) : Scope Conf :=
  ⟨some runtime,scope.bracketsLayers + 1,strLine,true⟩

inductive Action (Conf : Type) where
  | skip
  | store (write : Conf → Conf) (strLine : Text)
  | openBlock (runtime : RuntimeConf Conf) (strLine : Text)
  | close
  | fail

def Scope.action (confs : List (RuntimeConf Conf)) (scope : Scope Conf) (raw : Text) : Action Conf :=
  match classify raw with
  | .blank => .skip
  | .directive text =>
    match scope.bracketsLayers,scope.runtime,splitDirective text with
    | _ + 1,some runtime,some (n,v) =>
      match (runtime.confCmd.find? fun cmd => cmd.name = n).bind fun cmd => cmd.set v with
      | some write => .store write text
      | none => .fail
    -- outside of every block, or no space separator
    | _,_,_ => .fail
  | .opening name =>
    -- a brace on a line of its own takes the last line as the block's name
    let n := if name = [] then scope.strLineLast else name
    if n = [] then .fail
    else match confs.find? fun runtime => runtime.confName = n with
      | some runtime => .openBlock runtime name
      | none => .fail
  | .closing => .close
  | .invalid => .fail

structure Activation (Conf : Type) where
  scope : Scope Conf
  b : Nat

structure Parser (Conf : Type) where
  heap : Heap Conf
  child : Bool
  current : Activation Conf
  /-- Each as it is once its call returns. -/
  callers : List (Activation Conf)

inductive Progress (Conf : Type) where
  | running (p : Parser Conf)
  | returned (ok : Bool) (heap : Heap Conf)

def Parser.openBlock (p : Parser Conf) (runtime : RuntimeConf Conf) (strLine : Text) : Parser Conf where
  heap := (p.heap.create runtime).setLink p.current.b p.child (some p.heap.next)
  child := true
  current := ⟨p.current.scope.called runtime,p.heap.next⟩
  callers := ⟨p.current.scope.resumed runtime strLine,p.heap.next⟩::p.callers

def Parser.line (confs : List (RuntimeConf Conf)) (p : Parser Conf) (raw : Text) : Progress Conf :=
  match p.current.scope.action confs raw with
  | .skip => .running p
  | .store write strLine =>
    .running {p with
      heap := p.heap.setConf p.current.b write
      current := {p.current with scope := {p.current.scope with strLineLast := strLine}}}
  | .openBlock runtime strLine => .running (p.openBlock runtime strLine)
  | .close => match p.callers with
    | [] => .returned true p.heap
    | caller::callers => .running {p with child := false,current := caller,callers := callers}
  -- every caller turns a failed call into its own failure
  | .fail => .returned false p.heap

/-- At the end of the file an activation returns the `ret` it has, and its callers return it too. -/
def Parser.run (confs : List (RuntimeConf Conf)) : Parser Conf → List Text → Bool × Heap Conf
  | p,[] => (p.current.scope.ret,p.heap)
  | p,raw::rest => match p.line confs raw with
    | .running next => next.run confs rest
    | .returned ok heap => (ok,heap)

def parseBlock (confs : List (RuntimeConf Conf)) (heap : Heap Conf) (lines : List Text) : Bool × Heap Conf :=
  Parser.run confs ⟨heap,true,⟨Scope.start,0⟩,[]⟩ lines

/-- The lines alone: whether they are accepted, and whether a block was opened
up to the line that decides. -/
def recognise (confs : List (RuntimeConf Conf)) : Bool → Scope Conf → List (Scope Conf) → List Text → Bool × Bool
  | opened,scope,_,[] => (scope.ret,opened)
  | opened,scope,callers,raw::rest => match scope.action confs raw with
    | .skip => recognise confs opened scope callers rest
    | .store _ strLine => recognise confs opened {scope with strLineLast := strLine} callers rest
    | .openBlock runtime strLine =>
      recognise confs true (scope.called runtime) (scope.resumed runtime strLine::callers) rest
    | .close => match callers with
      | [] => (true,opened)
      | caller::callers => recognise confs opened caller callers rest
    | .fail => (false,opened)

def recogniseText (confs : List (RuntimeConf Conf)) (text : Text) : Bool × Bool :=
  recognise confs false Scope.start [] (getlines text)

theorem Parser.run_fst (confs : List (RuntimeConf Conf)) (lines : List Text) (p : Parser Conf) (opened : Bool) :
    (p.run confs lines).1 = (recognise confs opened p.current.scope (p.callers.map Activation.scope) lines).1 := by
  induction lines generalizing p opened with
  | nil => rfl
  | cons raw rest ih =>
    simp only [Parser.run,recognise,Parser.line]
    cases action : p.current.scope.action confs raw with
    | skip => exact ih p opened
    | store write strLine => exact ih _ opened
    | openBlock runtime strLine => exact ih _ true
    | close =>
      cases callers : p.callers with
      | nil => rfl
      | cons caller others => exact ih _ opened
    | fail => rfl

theorem parseBlock_fst (confs : List (RuntimeConf Conf)) (heap : Heap Conf) (text : Text) :
    (parseBlock confs heap (getlines text)).1 = (recogniseText confs text).1 :=
  Parser.run_fst confs (getlines text) _ false

theorem Node.setLink_same (node : Node Conf) (side : Bool) (pointer : Option Nat) :
    (node.setLink side pointer).link side = pointer := by
  cases side <;> rfl

theorem Node.setLink_other (node : Node Conf) {side other : Bool} (pointer : Option Nat) (different : other ≠ side) :
    (node.setLink side pointer).link other = node.link other := by
  cases side <;> cases other <;> first | rfl | exact absurd rfl different

theorem Heap.setLink_same (h : Heap Conf) (b : Nat) (side : Bool) (pointer : Option Nat) :
    (h.setLink b side pointer).link side b = pointer := by
  simp only [Heap.link,Heap.setLink,Function.update_self]
  exact Node.setLink_same _ side pointer

theorem Heap.setLink_other (h : Heap Conf) {b n : Nat} {side other : Bool} (pointer : Option Nat)
    (different : n ≠ b ∨ other ≠ side) : (h.setLink b side pointer).link other n = h.link other n := by
  simp only [Heap.link,Heap.setLink]
  by_cases same : n = b
  · subst n
    rw [Function.update_self]
    rcases different with impossible | different
    · exact absurd rfl impossible
    · exact Node.setLink_other _ pointer different
  · rw [Function.update_of_ne same]

theorem Heap.setConf_link (h : Heap Conf) (b : Nat) (write : Conf → Conf) : (h.setConf b write).link = h.link := by
  funext side n
  simp only [Heap.link,Heap.setConf]
  by_cases same : n = b
  · subst n
    rw [Function.update_self]
    rfl
  · rw [Function.update_of_ne same]

theorem Heap.create_link (h : Heap Conf) (runtime : RuntimeConf Conf) (side : Bool) (n : Nat) :
    (h.create runtime).link side n = if n = h.next then none else h.link side n := by
  simp only [Heap.link,Heap.create]
  by_cases same : n = h.next
  · subst n
    rw [Function.update_self,if_pos rfl]
    cases side <;> rfl
  · rw [Function.update_of_ne same,if_neg same]

structure Heap.Extends (base h : Heap Conf) : Prop where
  released : h.released = base.released
  grows : base.next ≤ h.next
  kept : ∀ n side, n < base.next → n ≠ 0 → h.link side n = base.link side n

structure Heap.Holds (base h : Heap Conf) (ids : List Nat) : Prop where
  root : h.root = some base.next
  spans : Spans h.link (some base.next) ids
  distinct : ids.Nodup
  exactly : ∀ n, n ∈ ids ↔ base.next ≤ n ∧ n < h.next

/-- The nodes whose sibling link is still to be set: the last block of each
activation that has one, innermost first. -/
def Parser.spine (p : Parser Conf) : List Nat :=
  (if p.child then [] else [p.current.b]) ++ p.callers.map Activation.b

structure Parser.Free (p : Parser Conf) (ids : List Nat) : Prop where
  inside : ∀ b ∈ p.spine, b ∈ ids
  distinct : p.spine.Nodup
  sibling : ∀ b ∈ p.spine, p.heap.link false b = none
  child : p.child = true → p.current.b ∈ p.spine ∧ p.heap.link true p.current.b = none

/-- Invariant of a parse started on `base`, before and after its first block. -/
inductive Parser.Sound (base : Heap Conf) : Bool → Parser Conf → Prop where
  | before {p : Parser Conf} (heap : p.heap = base) (child : p.child = true) (b : p.current.b = 0)
      (runtime : p.current.scope.runtime = none) (callers : p.callers = []) : Parser.Sound base false p
  | after {p : Parser Conf} {ids : List Nat} (extended : base.Extends p.heap) (holds : base.Holds p.heap ids)
      (free : p.Free ids) : Parser.Sound base true p

theorem Parser.Free.link_free {p : Parser Conf} {ids : List Nat} (free : p.Free ids) :
    p.current.b ∈ ids ∧ p.heap.link p.child p.current.b = none := by
  by_cases child : p.child = true
  · obtain ⟨member,none⟩ := free.child child
    rw [child]
    exact ⟨free.inside _ member,none⟩
  · have child : p.child = false := by simpa using child
    have member : p.current.b ∈ p.spine := by simp [Parser.spine,child]
    rw [child]
    exact ⟨free.inside _ member,free.sibling _ member⟩

theorem Parser.openBlock_link (p : Parser Conf) (runtime : RuntimeConf Conf) (strLine : Text) (side : Bool) (n : Nat)
    (other : n ≠ p.current.b ∨ side ≠ p.child) :
    (p.openBlock runtime strLine).heap.link side n = if n = p.heap.next then none else p.heap.link side n := by
  simp only [Parser.openBlock]
  rw [Heap.setLink_other _ _ other,Heap.create_link]

theorem Parser.openBlock_set (p : Parser Conf) (runtime : RuntimeConf Conf) (strLine : Text) :
    (p.openBlock runtime strLine).heap.link p.child p.current.b = some p.heap.next :=
  Heap.setLink_same _ _ _ _

theorem Parser.openBlock_free {p : Parser Conf} {ids grown : List Nat} (free : p.Free ids) (runtime : RuntimeConf Conf)
    (strLine : Text) (bounded : ∀ n ∈ ids, n < p.heap.next) (member : ∀ n, n ∈ grown ↔ n = p.heap.next ∨ n ∈ ids) :
    (p.openBlock runtime strLine).Free grown := by
  have fresh : p.heap.next ∉ p.callers.map Activation.b := by
    intro old
    exact Nat.lt_irrefl _ (bounded _ (free.inside _ (List.mem_append_right _ old)))
  have younger : p.heap.next ≠ p.current.b := fun same => Nat.lt_irrefl _ (bounded _ (same ▸ free.link_free.1))
  have spine : (p.openBlock runtime strLine).spine = p.heap.next::p.callers.map Activation.b := rfl
  have callers : (p.callers.map Activation.b).Nodup := (List.nodup_append.mp free.distinct).2.1
  constructor
  · intro b inside
    rw [spine] at inside
    rw [member]
    rcases List.mem_cons.mp inside with rfl | old
    · exact Or.inl rfl
    · exact Or.inr (free.inside b (List.mem_append_right _ old))
  · rw [spine]
    exact List.nodup_cons.mpr ⟨fresh,callers⟩
  · intro b inside
    rw [spine] at inside
    rcases List.mem_cons.mp inside with rfl | old
    · rw [Parser.openBlock_link p runtime strLine false _ (Or.inl younger),if_pos rfl]
    · have unset := free.sibling b (List.mem_append_right _ old)
      -- the link just written is a child link, or that of a block no caller holds
      have other : b ≠ p.current.b ∨ false ≠ p.child := by
        by_cases child : p.child = true
        · rw [child]
          exact Or.inr (by decide)
        · left
          rintro rfl
          have split := free.distinct
          rw [Parser.spine,if_neg child] at split
          exact (List.nodup_cons.mp split).1 old
      rw [Parser.openBlock_link p runtime strLine false b other]
      split
      · rfl
      · exact unset
  · intro _
    refine ⟨by rw [spine]; exact List.mem_cons_self,?_⟩
    exact (Parser.openBlock_link p runtime strLine true _ (Or.inl younger)).trans (if_pos rfl)

theorem Parser.openBlock_extends {base : Heap Conf} {p : Parser Conf} (extended : base.Extends p.heap)
    (runtime : RuntimeConf Conf) (strLine : Text) (target : p.current.b = 0 ∨ base.next ≤ p.current.b) :
    base.Extends (p.openBlock runtime strLine).heap where
  released := extended.released
  grows := Nat.le_succ_of_le extended.grows
  kept := by
    intro n side old nonzero
    have other : n ≠ p.current.b := by
      rintro rfl
      rcases target with zero | young
      · exact nonzero zero
      · exact Nat.lt_irrefl _ (Nat.lt_of_lt_of_le old young)
    have allocated : n ≠ p.heap.next := Nat.ne_of_lt (Nat.lt_of_lt_of_le old extended.grows)
    rw [Parser.openBlock_link p runtime strLine side n (Or.inl other),if_neg allocated]
    exact extended.kept n side old nonzero

theorem Parser.Sound.openBlock {base : Heap Conf} {opened : Bool} {p : Parser Conf} (positive : 0 < base.next)
    (sound : p.Sound base opened) (runtime : RuntimeConf Conf) (strLine : Text) :
    (p.openBlock runtime strLine).Sound base true := by
  cases sound with
  | before heap child b _ callers =>
    subst heap
    have extended : p.heap.Extends p.heap := ⟨rfl,Nat.le_refl _,fun _ _ _ _ => rfl⟩
    have root : p.current.b ≠ p.heap.next := b ▸ Nat.ne_of_lt positive
    have bare : ∀ side, (p.openBlock runtime strLine).heap.link side p.heap.next = none := fun side =>
      (Parser.openBlock_link p runtime strLine side _ (Or.inl (Ne.symm root))).trans (if_pos rfl)
    have spans : Spans (p.openBlock runtime strLine).heap.link (some p.heap.next) ([] ++ [] ++ [p.heap.next]) :=
      Spans.node (by rw [bare]; exact Spans.leaf) (by rw [bare]; exact Spans.leaf)
    have spine : (p.openBlock runtime strLine).spine = [p.heap.next] := by
      simp [Parser.spine,Parser.openBlock,callers]
    refine Parser.Sound.after (Parser.openBlock_extends extended runtime strLine (Or.inl b)) ⟨?_,spans,?_,?_⟩ ?_
    · have set := Parser.openBlock_set p runtime strLine
      rw [child,b] at set
      exact set
    · exact List.nodup_singleton _
    · intro n
      change n ∈ [p.heap.next] ↔ p.heap.next ≤ n ∧ n < p.heap.next + 1
      rw [List.mem_singleton]
      omega
    · refine ⟨?_,?_,?_,?_⟩
      · rw [spine]
        exact fun _ member => member
      · rw [spine]
        exact List.nodup_singleton _
      · rw [spine]
        intro n member
        rw [List.mem_singleton.mp member]
        exact bare false
      · intro _
        rw [spine]
        exact ⟨List.mem_singleton.mpr rfl,bare true⟩
  | @after _ ids extended holds free =>
    obtain ⟨inside,unset⟩ := free.link_free
    have bounded : ∀ n ∈ ids, n < p.heap.next := fun n member => ((holds.exactly n).mp member).2
    have younger : p.heap.next ≠ p.current.b := Ne.symm (Nat.ne_of_lt (bounded _ inside))
    obtain ⟨grown,permuted,spans⟩ := holds.spans.attach holds.distinct inside unset
      (Parser.openBlock_set p runtime strLine)
      (fun side => (Parser.openBlock_link p runtime strLine side _ (Or.inl younger)).trans (if_pos rfl))
      (fun i member side other => (Parser.openBlock_link p runtime strLine side i other).trans
        (if_neg (Nat.ne_of_lt (bounded i member))))
    have member : ∀ n, n ∈ grown ↔ n = p.heap.next ∨ n ∈ ids := fun n => by rw [permuted.mem_iff,List.mem_cons]
    have target := ((holds.exactly _).mp inside).1
    refine Parser.Sound.after (Parser.openBlock_extends extended runtime strLine (Or.inr target)) ⟨?_,spans,?_,?_⟩
      (Parser.openBlock_free free runtime strLine bounded member)
    · have zero : (0 : Nat) ≠ p.current.b := Nat.ne_of_lt (Nat.lt_of_lt_of_le positive target)
      have root := Parser.openBlock_link p runtime strLine true 0 (Or.inl zero)
      rw [if_neg (Nat.ne_of_lt (Nat.lt_of_lt_of_le positive extended.grows))] at root
      exact root.trans holds.root
    · refine permuted.nodup_iff.mpr (List.nodup_cons.mpr ⟨?_,holds.distinct⟩)
      exact fun old => Nat.lt_irrefl _ (bounded _ old)
    · intro n
      rw [member,holds.exactly]
      have grows := extended.grows
      change _ ↔ base.next ≤ n ∧ n < p.heap.next + 1
      omega

theorem Scope.action_store {confs : List (RuntimeConf Conf)} {scope : Scope Conf} {raw strLine : Text}
    {write : Conf → Conf} (stored : scope.action confs raw = .store write strLine) : scope.runtime ≠ none := by
  intro outside
  unfold Scope.action at stored
  rw [outside] at stored
  cases line : classify raw with
  | blank =>
    rw [line] at stored
    cases stored
  | directive text =>
    rw [line] at stored
    cases layers : scope.bracketsLayers <;> simp [layers] at stored
  | opening name =>
    rw [line] at stored
    dsimp only at stored
    generalize (if name = [] then scope.strLineLast else name) = n at stored
    split at stored
    · cases stored
    · split at stored <;> cases stored
  | closing =>
    rw [line] at stored
    cases stored
  | invalid =>
    rw [line] at stored
    cases stored

def Heap.Built (base h : Heap Conf) (opened : Bool) : Prop :=
  if opened then base.Extends h ∧ ∃ ids, base.Holds h ids else h = base

theorem Parser.Sound.built {base : Heap Conf} {opened : Bool} {p : Parser Conf} (sound : p.Sound base opened) :
    base.Built p.heap opened := by
  cases sound with
  | before heap => exact heap
  | after extended holds => exact ⟨extended,_,holds⟩

theorem Parser.Sound.run {base : Heap Conf} (positive : 0 < base.next) (confs : List (RuntimeConf Conf))
    (lines : List Text) {opened : Bool} {p : Parser Conf} (sound : p.Sound base opened) :
    base.Built (p.run confs lines).2
      (recognise confs opened p.current.scope (p.callers.map Activation.scope) lines).2 := by
  induction lines generalizing p opened with
  | nil => exact sound.built
  | cons raw rest ih =>
    simp only [Parser.run,recognise,Parser.line]
    cases action : p.current.scope.action confs raw with
    | skip => exact ih sound
    | store write strLine =>
      refine ih ?_
      cases sound with
      | before _ _ _ runtime => exact absurd runtime (Scope.action_store action)
      | after extended holds free =>
        have links := Heap.setConf_link p.heap p.current.b write
        refine Parser.Sound.after ⟨extended.released,extended.grows,?_⟩ ⟨?_,?_,holds.distinct,holds.exactly⟩
          ⟨free.inside,free.distinct,?_,?_⟩
        · exact fun n side old nonzero => (congrFun (congrFun links side) n).trans (extended.kept n side old nonzero)
        · exact (congrFun (congrFun links true) 0).trans holds.root
        · rw [links]
          exact holds.spans
        · exact fun b member => (congrFun (congrFun links false) b).trans (free.sibling b member)
        · intro child
          obtain ⟨member,unset⟩ := free.child child
          exact ⟨member,(congrFun (congrFun links true) _).trans unset⟩
    | openBlock runtime strLine => exact ih (sound.openBlock positive runtime strLine)
    | close =>
      cases callers : p.callers with
      | nil => exact sound.built
      | cons caller others =>
        refine ih ?_
        cases sound with
        | before _ _ _ _ empty =>
          rw [callers] at empty
          cases empty
        | after extended holds free =>
          -- the spine loses at most the block of the activation that returns
          have spine : p.spine = (if p.child then [] else [p.current.b]) ++ (caller.b::others.map Activation.b) := by
            rw [Parser.spine,callers,List.map_cons]
          refine Parser.Sound.after extended holds ⟨?_,?_,?_,?_⟩
          · intro b member
            exact free.inside b (by rw [spine]; exact List.mem_append_right _ member)
          · have distinct := free.distinct
            rw [spine] at distinct
            exact (List.nodup_append.mp distinct).2.1
          · intro b member
            exact free.sibling b (by rw [spine]; exact List.mem_append_right _ member)
          · intro impossible
            cases impossible
    | fail => exact sound.built

theorem parseBlock_built (confs : List (RuntimeConf Conf)) (heap : Heap Conf) (positive : 0 < heap.next) (text : Text) :
    heap.Built (parseBlock confs heap (getlines text)).2 (recogniseText confs text).2 :=
  Parser.Sound.run positive confs (getlines text) (Parser.Sound.before rfl rfl rfl rfl rfl)

end SrtLiveServer.Conf
