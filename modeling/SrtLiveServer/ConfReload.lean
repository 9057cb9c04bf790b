import SrtLiveServer.Conf
import SrtLiveServer.Transition

/-! Generations of the configuration tree: `sls_conf_open` publishes a tree in a
new reference count, managers copy the reference, and the last one dropped
releases the tree. The root slot and the reference are separate globals. -/
namespace SrtLiveServer.Conf
open Bytes LinkedTree Transition

variable {Conf : Type}

structure State (Conf : Type) where
  heap : Heap Conf
  /-- The pointer each reference count was made for. -/
  owned : List (Option Nat)
  /-- The reference count `g_current_conf` shares. -/
  current : Option Nat
  /-- The reference counts the managers share, one entry a copy. -/
  holders : List Nat

def State.start [Inhabited Conf] : State Conf := ⟨⟨fun _ => ⟨[],default,none,none⟩,1,[]⟩,[],none,[]⟩

def State.Referenced (s : State Conf) (k : Nat) : Prop := s.current = some k ∨ k ∈ s.holders

instance (s : State Conf) (k : Nat) : Decidable (s.Referenced k) := inferInstanceAs (Decidable (_ ∨ _))

def State.pointer (s : State Conf) (k : Nat) : Option Nat := s.owned[k]?.join

/-- `sls_conf_get_root_shared`: the reference count and its pointer. -/
def State.rootShared (s : State Conf) : Option (Nat × Option Nat) := s.current.map fun k => (k,s.pointer k)

/-- A reference to `k` was dropped; without another the tree is released. -/
def State.letGo (s : State Conf) (k : Nat) : State Conf :=
  if s.Referenced k then s else {s with heap := s.heap.release s.heap.next (s.pointer k)}

def State.letGoOf (s : State Conf) : Option Nat → State Conf
  | none => s
  | some k => s.letGo k

/-- `sls_conf_open`; no text is a file that cannot be opened. -/
def State.confOpen (confs : List (RuntimeConf Conf)) (s : State Conf) : Option Text → Bool × State Conf
  | none => (false,s)
  | some text =>
    let (ok,heap) := parseBlock confs s.heap (getlines text)
    if ok then
      let published := {s with heap := heap,owned := s.owned ++ [heap.root],current := some s.owned.length}
      (true,published.letGoOf s.current)
    else (false,{s with heap := (heap.setLink 0 true none).release heap.next heap.root})

def State.confClose (s : State Conf) : State Conf :=
  let reset := State.letGoOf {s with current := none} s.current
  {reset with heap := reset.heap.setLink 0 true none}

inductive Call where
  | confOpen (file : Option Text)
  | confClose
  | hold
  | drop (k : Nat)

def State.step (confs : List (RuntimeConf Conf)) (s : State Conf) : Call → Option (State Conf)
  | .confOpen file => some (s.confOpen confs file).2
  | .confClose => some s.confClose
  | .hold => some {s with holders := s.holders ++ s.current.toList}
  | .drop k => if k ∈ s.holders then some (State.letGo {s with holders := s.holders.erase k} k) else none

def configuration (confs : List (RuntimeConf Conf)) : Machine (State Conf) Call := ⟨State.step confs⟩

/-- If `sls_conf_open` fails, both getters return what they did, and no node that
existed before was released. -/
def State.Untouched (confs : List (RuntimeConf Conf)) (s : State Conf) (file : Option Text) : Prop :=
  (s.confOpen confs file).1 = false →
    (s.confOpen confs file).2.heap.root = s.heap.root ∧ (s.confOpen confs file).2.rootShared = s.rootShared ∧
    ∀ n < s.heap.next, n ∈ (s.confOpen confs file).2.heap.released → n ∈ s.heap.released

/-- A readable file is opened with no tree at the root, or has a text that is
accepted after it opened a block. -/
def State.Safe (confs : List (RuntimeConf Conf)) (s : State Conf) : Call → Prop
  | .confOpen (some text) => s.heap.root = none ∨ recogniseText confs text = (true,true)
  | _ => True

def State.Spared (confs : List (RuntimeConf Conf)) (s : State Conf) : Option Text → Prop
  | none => True
  | some text => s.heap.root = none ∨ (recogniseText confs text).1 = true

/-- Some reference keeps the tree of node `n`. -/
def State.Live (s : State Conf) (n : Nat) : Prop :=
  ∃ k ids, s.Referenced k ∧ Spans s.heap.link (s.pointer k) ids ∧ n ∈ ids

theorem Heap.release_reads {β : Type} (read : Heap Conf → β)
    (links : ∀ (h : Heap Conf) (c : Nat) (side : Bool), read (h.setLink c side none) = read h)
    (released : ∀ (h : Heap Conf) (list : List Nat), read {h with released := list} = read h) (fuel : Nat)
    (h : Heap Conf) (pointer : Option Nat) : read (h.release fuel pointer) = read h := by
  induction fuel generalizing h pointer with
  | zero => cases pointer <;> rfl
  | succ fuel ih =>
    cases pointer with
    | none => rfl
    | some c =>
      rw [Heap.release,released,links,ih,links,ih]

theorem Heap.release_next (fuel : Nat) (h : Heap Conf) (pointer : Option Nat) :
    (h.release fuel pointer).next = h.next :=
  Heap.release_reads Heap.next (fun _ _ _ => rfl) (fun _ _ => rfl) fuel h pointer

theorem Heap.release_clears (fuel : Nat) (h : Heap Conf) (pointer : Option Nat) {side : Bool} {n : Nat}
    (clear : h.link side n = none) : (h.release fuel pointer).link side n = none := by
  have cleared : ∀ (h : Heap Conf) (b : Nat) (other : Bool), h.link side n = none →
      (h.setLink b other none).link side n = none := by
    intro h b other clear
    by_cases same : n = b ∧ side = other
    · obtain ⟨rfl,rfl⟩ := same
      exact h.setLink_same n side none
    · rw [h.setLink_other none (by tauto)]
      exact clear
  induction fuel generalizing h pointer with
  | zero => cases pointer <;> exact clear
  | succ fuel ih =>
    cases pointer with
    | none => exact clear
    | some c =>
      have below := cleared _ c true (ih h (h.link true c) clear)
      exact cleared _ c false (ih _ _ below)

theorem Heap.release_spans (fuel : Nat) (h : Heap Conf) {pointer : Option Nat} {ids : List Nat}
    (spans : Spans h.link pointer ids) (distinct : ids.Nodup) (enough : ids.length ≤ fuel) :
    (h.release fuel pointer).released = h.released ++ ids ∧
      ∀ n, n ∉ ids → ∀ side, (h.release fuel pointer).link side n = h.link side n := by
  induction fuel generalizing h pointer ids with
  | zero =>
    have empty : ids = [] := List.eq_nil_of_length_eq_zero (Nat.le_zero.mp enough)
    subst empty
    cases pointer <;> simp [Heap.release]
  | succ fuel ih =>
    cases spans with
    | leaf => simp [Heap.release]
    | @node c first second left right =>
      obtain ⟨below,_,apart⟩ := List.nodup_append.mp distinct
      obtain ⟨firstNodup,secondNodup,disjoint⟩ := List.nodup_append.mp below
      have outFirst : c ∉ first := fun member => apart c (by simp [member]) c (by simp) rfl
      have outSecond : c ∉ second := fun member => apart c (by simp [member]) c (by simp) rfl
      simp only [List.length_append,List.length_singleton] at enough
      obtain ⟨releasedFirst,keptFirst⟩ := ih h left firstNodup (by omega)
      have keptBelow : ∀ n, n ∉ first → n ≠ c → ∀ side,
          ((h.release fuel (h.link true c)).setLink c true none).link side n = h.link side n := by
        intro n outside other side
        rw [Heap.setLink_other _ none (Or.inl other)]
        exact keptFirst n outside side
      have sibling : ((h.release fuel (h.link true c)).setLink c true none).link false c = h.link false c := by
        rw [Heap.setLink_other _ none (Or.inr (by decide))]
        exact keptFirst c outFirst false
      have right' : Spans ((h.release fuel (h.link true c)).setLink c true none).link
          (((h.release fuel (h.link true c)).setLink c true none).link false c) second := by
        rw [sibling]
        refine right.congr fun n member side => keptBelow n ?_ ?_ side
        · exact fun other => disjoint n other n member rfl
        · exact fun same => outSecond (same ▸ member)
      obtain ⟨releasedSecond,keptSecond⟩ := ih _ right' secondNodup (by omega)
      constructor
      · change (Heap.release fuel _ _).released ++ [c] = _
        rw [releasedSecond]
        change (h.release fuel (h.link true c)).released ++ second ++ [c] = _
        rw [releasedFirst]
        simp only [List.append_assoc]
      · intro n outside side
        have other : n ≠ c := fun same => outside (by simp [same])
        have outsideFirst : n ∉ first := fun member => outside (by simp [member])
        have outsideSecond : n ∉ second := fun member => outside (by simp [member])
        change ((Heap.release fuel _ _).setLink c false none).link side n = _
        rw [Heap.setLink_other _ none (Or.inl other),keptSecond n outsideSecond side]
        exact keptBelow n outsideFirst other side

/-- The trees of the reference counts in `keep` are apart, and together with the
released nodes they are every node there is. -/
structure Owned (h : Heap Conf) (pointer : Nat → Option Nat) (keep : Nat → Prop) (ids : Nat → List Nat) : Prop where
  positive : 0 < h.next
  spans : ∀ k, keep k → Spans h.link (pointer k) (ids k)
  distinct : ∀ k, keep k → (ids k).Nodup
  allocated : ∀ k, keep k → ∀ n ∈ ids k, 0 < n ∧ n < h.next
  apart : ∀ j k, keep j → keep k → j ≠ k → ∀ n ∈ ids j, n ∉ ids k
  once : h.released.Nodup
  known : ∀ n ∈ h.released, 0 < n ∧ n < h.next
  gone : ∀ n ∈ h.released, ∀ k, keep k → n ∉ ids k
  exhaustive : ∀ n, 0 < n → n < h.next → n ∈ h.released ∨ ∃ k, keep k ∧ n ∈ ids k

variable {h : Heap Conf} {pointer : Nat → Option Nat} {keep : Nat → Prop} {ids : Nat → List Nat}

theorem Owned.congr (owned : Owned h pointer keep ids) {other : Nat → Option Nat} {kept : Nat → Prop}
    (same : ∀ k, kept k ↔ keep k) (points : ∀ k, kept k → other k = pointer k) : Owned h other kept ids where
  positive := owned.positive
  spans := fun k held => by
    rw [points k held]
    exact owned.spans k ((same k).mp held)
  distinct := fun k held => owned.distinct k ((same k).mp held)
  allocated := fun k held => owned.allocated k ((same k).mp held)
  apart := fun j k first second => owned.apart j k ((same j).mp first) ((same k).mp second)
  once := owned.once
  known := owned.known
  gone := fun n member k held => owned.gone n member k ((same k).mp held)
  exhaustive := by
    intro n positive bound
    rcases owned.exhaustive n positive bound with released | ⟨k,held,member⟩
    · exact Or.inl released
    · exact Or.inr ⟨k,(same k).mpr held,member⟩

theorem Owned.setRoot (owned : Owned h pointer keep ids) (root : Option Nat) :
    Owned (h.setLink 0 true root) pointer keep ids where
  positive := owned.positive
  spans := by
    intro k held
    refine (owned.spans k held).congr fun n member side => Heap.setLink_other _ _ (Or.inl ?_)
    exact Ne.symm (Nat.ne_of_lt (owned.allocated k held n member).1)
  distinct := owned.distinct
  allocated := owned.allocated
  apart := owned.apart
  once := owned.once
  known := owned.known
  gone := owned.gone
  exhaustive := owned.exhaustive

theorem Owned.enough (owned : Owned h pointer keep ids) {k : Nat} (held : keep k) : (ids k).length ≤ h.next := by
  have below : ids k ⊆ List.range h.next := by
    intro n member
    exact List.mem_range.mpr (owned.allocated k held n member).2
  have shorter := (List.subperm_of_subset (owned.distinct k held) below).length_le
  rwa [List.length_range] at shorter

theorem Owned.release (owned : Owned h pointer keep ids) {k : Nat} (held : keep k) :
    Owned (h.release h.next (pointer k)) pointer (fun j => keep j ∧ j ≠ k) ids := by
  obtain ⟨released,kept⟩ := Heap.release_spans h.next h (owned.spans k held) (owned.distinct k held)
    (owned.enough held)
  have next := Heap.release_next h.next h (pointer k)
  constructor
  · rw [next]
    exact owned.positive
  · rintro j ⟨heldJ,other⟩
    refine (owned.spans j heldJ).congr fun n member side => kept n ?_ side
    exact owned.apart j k heldJ held other n member
  · exact fun j heldJ => owned.distinct j heldJ.1
  · rw [next]
    exact fun j heldJ => owned.allocated j heldJ.1
  · exact fun i j first second => owned.apart i j first.1 second.1
  · rw [released]
    refine List.nodup_append.mpr ⟨owned.once,owned.distinct k held,?_⟩
    rintro n gone _ member rfl
    exact owned.gone n gone k held member
  · rw [released,next]
    intro n member
    rcases List.mem_append.mp member with gone | tree
    · exact owned.known n gone
    · exact owned.allocated k held n tree
  · rw [released]
    rintro n member j ⟨heldJ,other⟩
    rcases List.mem_append.mp member with gone | tree
    · exact owned.gone n gone j heldJ
    · exact owned.apart k j held heldJ (Ne.symm other) n tree
  · rw [released,next]
    intro n positive bound
    rcases owned.exhaustive n positive bound with gone | ⟨j,heldJ,member⟩
    · exact Or.inl (List.mem_append_left _ gone)
    · by_cases same : j = k
      · subst j
        exact Or.inl (List.mem_append_right _ member)
      · exact Or.inr ⟨j,⟨heldJ,same⟩,member⟩

theorem Owned.publish (owned : Owned h pointer keep ids) {parsed : Heap Conf} {opened : Bool}
    (built : h.Built parsed opened) (fresh : opened = true ∨ h.root = none) {m : Nat} (unused : ¬ keep m) :
    ∃ grown, Owned parsed (Function.update pointer m parsed.root) (fun k => keep k ∨ k = m) grown := by
  have other : ∀ k, keep k → k ≠ m := fun k held same => unused (same ▸ held)
  -- the tree of the new reference count, of no node if no block was opened
  obtain ⟨tree,released,grows,kept,spans,distinct,exactly⟩ : ∃ tree, parsed.released = h.released ∧
      h.next ≤ parsed.next ∧ (∀ n side, n < h.next → n ≠ 0 → parsed.link side n = h.link side n) ∧
      Spans parsed.link parsed.root tree ∧ tree.Nodup ∧ ∀ n, n ∈ tree ↔ h.next ≤ n ∧ n < parsed.next := by
    cases opened with
    | true =>
      obtain ⟨extended,tree,holds⟩ := built
      refine ⟨tree,extended.released,extended.grows,extended.kept,?_,holds.distinct,holds.exactly⟩
      rw [holds.root]
      exact holds.spans
    | false =>
      have same : parsed = h := built
      subst same
      have none : parsed.root = none := fresh.resolve_left (by decide)
      refine ⟨[],rfl,Nat.le_refl _,fun _ _ _ _ => rfl,?_,List.nodup_nil,?_⟩
      · rw [none]
        exact Spans.leaf
      · intro n
        simp only [List.not_mem_nil,false_iff,not_and,Nat.not_lt]
        exact fun young => young
  have old : ∀ k, keep k → ∀ n ∈ ids k, n ∉ tree := by
    intro k held n member young
    exact Nat.lt_irrefl _ (Nat.lt_of_lt_of_le (owned.allocated k held n member).2 ((exactly n).mp young).1)
  refine ⟨Function.update ids m tree,?_⟩
  constructor
  · exact Nat.lt_of_lt_of_le owned.positive grows
  · rintro k (held | rfl)
    · rw [Function.update_of_ne (other k held),Function.update_of_ne (other k held)]
      refine (owned.spans k held).congr fun n member side => ?_
      obtain ⟨positive,bound⟩ := owned.allocated k held n member
      exact kept n side bound (Ne.symm (Nat.ne_of_lt positive))
    · rw [Function.update_self,Function.update_self]
      exact spans
  · rintro k (held | rfl)
    · rw [Function.update_of_ne (other k held)]
      exact owned.distinct k held
    · rw [Function.update_self]
      exact distinct
  · rintro k (held | rfl) n member
    · rw [Function.update_of_ne (other k held)] at member
      obtain ⟨positive,bound⟩ := owned.allocated k held n member
      exact ⟨positive,Nat.lt_of_lt_of_le bound grows⟩
    · rw [Function.update_self] at member
      obtain ⟨young,bound⟩ := (exactly n).mp member
      exact ⟨Nat.lt_of_lt_of_le owned.positive young,bound⟩
  · rintro j k (heldJ | rfl) (heldK | rfl) different n member
    · rw [Function.update_of_ne (other j heldJ)] at member
      rw [Function.update_of_ne (other k heldK)]
      exact owned.apart j k heldJ heldK different n member
    · rw [Function.update_of_ne (other j heldJ)] at member
      rw [Function.update_self]
      exact old j heldJ n member
    · rw [Function.update_self] at member
      rw [Function.update_of_ne (other k heldK)]
      exact fun also => old k heldK n also member
    · exact absurd rfl different
  · rw [released]
    exact owned.once
  · rw [released]
    intro n member
    obtain ⟨positive,bound⟩ := owned.known n member
    exact ⟨positive,Nat.lt_of_lt_of_le bound grows⟩
  · rw [released]
    rintro n member k (held | rfl)
    · rw [Function.update_of_ne (other k held)]
      exact owned.gone n member k held
    · rw [Function.update_self,exactly]
      exact fun young => Nat.lt_irrefl _ (Nat.lt_of_lt_of_le (owned.known n member).2 young.1)
  · rw [released]
    intro n positive bound
    rcases Nat.lt_or_ge n h.next with earlier | young
    · rcases owned.exhaustive n positive earlier with gone | ⟨k,held,member⟩
      · exact Or.inl gone
      · refine Or.inr ⟨k,Or.inl held,?_⟩
        rw [Function.update_of_ne (other k held)]
        exact member
    · refine Or.inr ⟨m,Or.inr rfl,?_⟩
      rw [Function.update_self]
      exact (exactly n).mpr ⟨young,bound⟩

/-- Every node is released or in the tree of exactly one reference count, and the
root slot is what `g_current_conf` points to. -/
structure State.Sound (s : State Conf) (ids : Nat → List Nat) : Prop where
  owned : Owned s.heap s.pointer s.Referenced ids
  counted : ∀ k, s.Referenced k → k < s.owned.length
  root : s.heap.root = s.current.bind s.pointer

theorem State.start_sound [Inhabited Conf] : (State.start : State Conf).Sound fun _ => [] := by
  have unheld : ∀ k, ¬ (State.start : State Conf).Referenced k := by
    rintro k (impossible | impossible) <;> cases impossible
  refine ⟨⟨Nat.one_pos,?_,?_,?_,?_,List.nodup_nil,?_,?_,?_⟩,?_,rfl⟩
  · exact fun k held => absurd held (unheld k)
  · exact fun k held => absurd held (unheld k)
  · exact fun k held => absurd held (unheld k)
  · exact fun j _ held => absurd held (unheld j)
  · exact fun n member => by cases member
  · exact fun n member => by cases member
  · intro n positive bound
    exact absurd bound (Nat.not_lt.mpr positive)
  · exact fun k held => absurd held (unheld k)

theorem State.letGo_owned {s : State Conf} {k : Nat}
    (owned : Owned s.heap s.pointer (fun j => s.Referenced j ∨ j = k) ids) :
    Owned (s.letGo k).heap s.pointer s.Referenced ids := by
  unfold State.letGo
  split
  · rename_i held
    refine owned.congr (fun j => ⟨Or.inl,?_⟩) fun _ _ => rfl
    rintro (other | rfl)
    · exact other
    · exact held
  · rename_i unheld
    refine (owned.release (Or.inr rfl)).congr (fun j => ⟨?_,?_⟩) fun _ _ => rfl
    · exact fun held => ⟨Or.inl held,fun same => unheld (same ▸ held)⟩
    · rintro ⟨held | same,other⟩
      · exact held
      · exact absurd same other

theorem State.letGo_root {s : State Conf} {k : Nat}
    (owned : Owned s.heap s.pointer (fun j => s.Referenced j ∨ j = k) ids) :
    (s.letGo k).heap.root = s.heap.root := by
  unfold State.letGo
  split
  · rfl
  · have held : s.Referenced k ∨ k = k := Or.inr rfl
    obtain ⟨_,kept⟩ := Heap.release_spans s.heap.next s.heap (owned.spans k held) (owned.distinct k held)
      (owned.enough held)
    exact kept 0 (fun member => Nat.lt_irrefl 0 (owned.allocated k held 0 member).1) true

theorem State.letGo_owner (s : State Conf) (k : Nat) :
    (s.letGo k).owned = s.owned ∧ (s.letGo k).current = s.current ∧ (s.letGo k).holders = s.holders := by
  unfold State.letGo
  split <;> exact ⟨rfl,rfl,rfl⟩

theorem State.letGoOf_owned {s : State Conf} (last : Option Nat)
    (owned : Owned s.heap s.pointer (fun k => s.Referenced k ∨ last = some k) ids) :
    Owned (s.letGoOf last).heap s.pointer s.Referenced ids ∧ (s.letGoOf last).heap.root = s.heap.root ∧
      (s.letGoOf last).owned = s.owned ∧ (s.letGoOf last).current = s.current ∧
      (s.letGoOf last).holders = s.holders := by
  cases last with
  | none =>
    refine ⟨owned.congr (fun k => ⟨Or.inl,?_⟩) fun _ _ => rfl,rfl,rfl,rfl,rfl⟩
    rintro (held | impossible)
    · exact held
    · cases impossible
  | some k =>
    have owned : Owned s.heap s.pointer (fun j => s.Referenced j ∨ j = k) ids := by
      refine owned.congr (fun j => ?_) fun _ _ => rfl
      rw [Option.some.injEq,eq_comm (a := k)]
    exact ⟨State.letGo_owned owned,State.letGo_root owned,s.letGo_owner k⟩

theorem State.letGoOf_sound {s : State Conf} (last : Option Nat)
    (owned : Owned s.heap s.pointer (fun k => s.Referenced k ∨ last = some k) ids)
    (counted : ∀ k, s.Referenced k → k < s.owned.length) (root : s.heap.root = s.current.bind s.pointer) :
    (s.letGoOf last).Sound ids := by
  obtain ⟨kept,slot,counts,current,holders⟩ := State.letGoOf_owned last owned
  have pointers : (s.letGoOf last).pointer = s.pointer := by
    funext j
    rw [State.pointer,State.pointer,counts]
  have references : (s.letGoOf last).Referenced = s.Referenced := by
    funext j
    rw [State.Referenced,State.Referenced,current,holders]
  constructor
  · rw [pointers,references]
    exact kept
  · rw [references,counts]
    exact counted
  · rw [slot,current,pointers]
    exact root

theorem State.Sound.published {s : State Conf} (sound : s.Sound ids) {parsed : Heap Conf} {opened : Bool}
    (built : s.heap.Built parsed opened) (fresh : opened = true ∨ s.heap.root = none) :
    ∃ grown, (State.letGoOf {s with heap := parsed,owned := s.owned ++ [parsed.root],current := some s.owned.length}
      s.current).Sound grown := by
  have unused : ¬ s.Referenced s.owned.length := fun held => Nat.lt_irrefl _ (sound.counted _ held)
  obtain ⟨grown,owned⟩ := sound.owned.publish built fresh unused
  have last : (s.owned ++ [parsed.root])[s.owned.length]?.join = parsed.root := by
    rw [List.getElem?_append_right (Nat.le_refl _),Nat.sub_self]
    rfl
  refine ⟨grown,State.letGoOf_sound s.current ?_ ?_ ?_⟩
  · refine owned.congr (fun k => ?_) ?_
    · simp only [State.Referenced,Option.some.injEq,eq_comm (a := s.owned.length)]
      tauto
    · intro k held
      by_cases same : k = s.owned.length
      · subst k
        rw [Function.update_self]
        exact last
      · rw [Function.update_of_ne same]
        have bound : k < s.owned.length := by
          rcases held with (new | kept) | old
          · exact absurd (Option.some.inj new).symm same
          · exact sound.counted k (Or.inr kept)
          · exact sound.counted k (Or.inl old)
        simp only [State.pointer]
        rw [List.getElem?_append_left bound]
  · intro k held
    change k < (s.owned ++ [parsed.root]).length
    rw [List.length_append]
    rcases held with new | kept
    · cases new
      exact Nat.lt_add_one _
    · exact Nat.lt_add_right _ (sound.counted k (Or.inr kept))
  · exact last.symm

theorem State.Sound.discarded {s : State Conf} (sound : s.Sound ids) {parsed : Heap Conf} {opened : Bool}
    (built : s.heap.Built parsed opened) (empty : s.heap.root = none) :
    ∃ grown, State.Sound {s with heap := (parsed.setLink 0 true none).release parsed.next parsed.root} grown := by
  have unused : ¬ s.Referenced s.owned.length := fun held => Nat.lt_irrefl _ (sound.counted _ held)
  obtain ⟨grown,owned⟩ := sound.owned.publish built (Or.inr empty) unused
  have dropped := (owned.setRoot none).release (Or.inr rfl)
  rw [Function.update_self] at dropped
  refine ⟨grown,dropped.congr (fun k => ?_) ?_,sound.counted,?_⟩
  · constructor
    · exact fun held => ⟨Or.inl held,fun same => unused (same ▸ held)⟩
    · rintro ⟨held | same,other⟩
      · exact held
      · exact absurd same other
  · intro k held
    have other : k ≠ s.owned.length := fun same => unused (same ▸ held)
    exact (Function.update_of_ne other _ _).symm
  · have cleared := Heap.release_clears parsed.next (parsed.setLink 0 true none) parsed.root
      (parsed.setLink_same 0 true none)
    exact cleared.trans (empty.symm.trans sound.root)

theorem State.Sound.confOpen {s : State Conf} (sound : s.Sound ids) (confs : List (RuntimeConf Conf))
    (file : Option Text) (safe : s.Safe confs (.confOpen file)) : ∃ grown, (s.confOpen confs file).2.Sound grown := by
  cases file with
  | none => exact ⟨ids,sound⟩
  | some text =>
    have built := parseBlock_built confs s.heap sound.owned.positive text
    have fst := parseBlock_fst confs s.heap text
    unfold State.confOpen
    dsimp only
    split
    · refine sound.published built ?_
      rcases safe with empty | accepted
      · exact Or.inr empty
      · rw [accepted]
        exact Or.inl rfl
    · rename_i failed
      rcases safe with empty | accepted
      · exact sound.discarded built empty
      · rw [fst,accepted] at failed
        exact absurd rfl failed

theorem State.Sound.confClose {s : State Conf} (sound : s.Sound ids) : s.confClose.Sound ids := by
  have owned : Owned s.heap s.pointer (fun k => State.Referenced {s with current := none} k ∨ s.current = some k) ids := by
    refine sound.owned.congr (fun k => ?_) fun _ _ => rfl
    simp only [State.Referenced,reduceCtorEq,false_or]
    tauto
  obtain ⟨kept,_,counts,current,holders⟩ :=
    State.letGoOf_owned (s := {s with current := none}) s.current owned
  have pointers : s.confClose.pointer = s.pointer := by
    funext j
    simp only [State.pointer,State.confClose]
    rw [counts]
  have references : s.confClose.Referenced = State.Referenced {s with current := none} := by
    funext j
    simp only [State.Referenced,State.confClose]
    rw [current,holders]
  constructor
  · rw [pointers,references]
    exact kept.setRoot none
  · rw [references]
    simp only [State.confClose]
    rw [counts]
    rintro k (impossible | held)
    · cases impossible
    · exact sound.counted k (Or.inr held)
  · have none : s.confClose.current = none := current
    rw [none]
    exact Heap.setLink_same _ 0 true Option.none

theorem State.Sound.hold {s : State Conf} (sound : s.Sound ids) :
    State.Sound {s with holders := s.holders ++ s.current.toList} ids := by
  have same : ∀ k, State.Referenced {s with holders := s.holders ++ s.current.toList} k ↔ s.Referenced k := by
    intro k
    simp only [State.Referenced,List.mem_append,Option.mem_toList]
    tauto
  exact ⟨sound.owned.congr same fun _ _ => rfl,fun k held => sound.counted k ((same k).mp held),sound.root⟩

theorem State.Sound.drop {s : State Conf} (sound : s.Sound ids) {k : Nat} (held : k ∈ s.holders) :
    (State.letGo {s with holders := s.holders.erase k} k).Sound ids := by
  have same : ∀ j, State.Referenced {s with holders := s.holders.erase k} j ∨ some k = some j ↔ s.Referenced j := by
    intro j
    by_cases equal : j = k
    · subst j
      exact ⟨fun _ => Or.inr held,fun _ => Or.inr rfl⟩
    · have other : some k ≠ some j := fun impossible => equal (Option.some.inj impossible).symm
      simp only [State.Referenced,List.mem_erase_of_ne equal,other,or_false]
  refine State.letGoOf_sound (some k) (sound.owned.congr same fun _ _ => rfl) ?_ sound.root
  exact fun j kept => sound.counted j ((same j).mp (Or.inl kept))

theorem configuration_keeps (confs : List (RuntimeConf Conf)) :
    (configuration confs).Keeps (State.Safe confs) fun s => ∃ ids, s.Sound ids := by
  rintro s call next ⟨ids,sound⟩ safe stepped
  change s.step confs call = some next at stepped
  cases call with
  | confOpen file =>
    cases stepped
    exact sound.confOpen confs file safe
  | confClose =>
    cases stepped
    exact ⟨ids,sound.confClose⟩
  | hold =>
    cases stepped
    exact ⟨ids,sound.hold⟩
  | drop k =>
    simp only [State.step] at stepped
    split at stepped
    · rename_i held
      cases stepped
      exact ⟨ids,sound.drop held⟩
    · cases stepped

theorem State.confOpen_released (confs : List (RuntimeConf Conf)) (s : State Conf) (positive : 0 < s.heap.next)
    (text : Text) (empty : s.heap.root = none) (failed : (recogniseText confs text).1 = false) :
    ∀ n < s.heap.next, n ∈ (s.confOpen confs (some text)).2.heap.released → n ∈ s.heap.released := by
  have built := parseBlock_built confs s.heap positive text
  have fst := parseBlock_fst confs s.heap text
  rw [failed] at fst
  unfold State.confOpen
  dsimp only
  rw [fst,if_neg (by decide)]
  dsimp only
  generalize (parseBlock confs s.heap (getlines text)).2 = parsed at built
  intro n old member
  cases opened : (recogniseText confs text).2 with
  | true =>
    rw [opened] at built
    obtain ⟨extended,tree,holds⟩ := built
    have spans : Spans (parsed.setLink 0 true none).link parsed.root tree := by
      rw [holds.root]
      refine holds.spans.congr fun i inside side => Heap.setLink_other _ _ (Or.inl ?_)
      exact Ne.symm (Nat.ne_of_lt (Nat.lt_of_lt_of_le positive ((holds.exactly i).mp inside).1))
    have enough : tree.length ≤ parsed.next := by
      have below : tree ⊆ List.range parsed.next := fun i inside => List.mem_range.mpr ((holds.exactly i).mp inside).2
      have shorter := (List.subperm_of_subset holds.distinct below).length_le
      rwa [List.length_range] at shorter
    rw [(Heap.release_spans parsed.next _ spans holds.distinct enough).1] at member
    rcases List.mem_append.mp member with before | young
    · exact extended.released ▸ before
    · exact absurd old (Nat.not_lt.mpr ((holds.exactly n).mp young).1)
  | false =>
    rw [opened] at built
    have same : parsed = s.heap := built
    subst same
    rw [empty] at member
    cases size : s.heap.next <;> rw [size] at member <;> exact member

theorem State.untouched_text_iff (confs : List (RuntimeConf Conf)) (s : State Conf) (positive : 0 < s.heap.next) (text : Text) :
    s.Untouched confs (some text) ↔ s.heap.root = none ∨ (recogniseText confs text).1 = true := by
  have fst := parseBlock_fst confs s.heap text
  constructor
  · intro untouched
    by_contra neither
    obtain ⟨loaded,rejected⟩ := not_or.mp neither
    have rejected : (recogniseText confs text).1 = false := by simpa using rejected
    rw [rejected] at fst
    unfold State.Untouched State.confOpen at untouched
    dsimp only at untouched
    rw [fst,if_neg (by decide)] at untouched
    obtain ⟨root,_⟩ := untouched rfl
    -- whatever was parsed, the failure path has cleared the root slot
    have cleared := Heap.release_clears (parseBlock confs s.heap (getlines text)).2.next
      ((parseBlock confs s.heap (getlines text)).2.setLink 0 true none)
      (parseBlock confs s.heap (getlines text)).2.root (Heap.setLink_same _ 0 true none)
    exact loaded (root.symm.trans cleared)
  · rintro (empty | accepted) failed
    · by_cases accepted : (recogniseText confs text).1 = true
      · unfold State.confOpen at failed
        dsimp only at failed
        rw [fst,if_pos accepted] at failed
        cases failed
      · have rejected : (recogniseText confs text).1 = false := by simpa using accepted
        refine ⟨?_,?_,s.confOpen_released confs positive text empty rejected⟩
        · unfold State.confOpen
          dsimp only
          rw [fst,if_neg accepted]
          exact (Heap.release_clears _ _ _ (Heap.setLink_same _ 0 true none)).trans empty.symm
        · unfold State.confOpen
          dsimp only
          rw [fst,if_neg accepted]
          rfl
    · unfold State.confOpen at failed
      dsimp only at failed
      rw [fst,if_pos accepted] at failed
      cases failed

theorem State.untouched_iff (confs : List (RuntimeConf Conf)) (s : State Conf) (positive : 0 < s.heap.next)
    (file : Option Text) : s.Untouched confs file ↔ s.Spared confs file := by
  cases file with
  | none => exact ⟨fun _ => trivial,fun _ _ => ⟨rfl,rfl,fun _ _ member => member⟩⟩
  | some text => exact s.untouched_text_iff confs positive text

theorem State.Sound.released_iff {s : State Conf} (sound : s.Sound ids) {n : Nat} (positive : 0 < n)
    (bound : n < s.heap.next) : n ∈ s.heap.released ↔ ¬ s.Live n := by
  constructor
  · rintro gone ⟨k,tree,held,spans,member⟩
    rw [spans.unique (sound.owned.spans k held)] at member
    exact sound.owned.gone n gone k held member
  · intro dead
    rcases sound.owned.exhaustive n positive bound with gone | ⟨k,held,member⟩
    · exact gone
    · exact absurd ⟨k,ids k,held,sound.owned.spans k held,member⟩ dead

/-- In every run whose readable files are opened with an empty root or are
accepted with a block, a failed open touches nothing exactly as `Spared` says,
and each node is released once, when the last reference to its tree is gone. -/
theorem configuration_kept [Inhabited Conf] (confs : List (RuntimeConf Conf)) (calls : List Call) (s : State Conf)
    (admitted : (configuration confs).Admits (State.Safe confs) State.start calls)
    (ran : (configuration confs).run State.start calls = some s) :
    (∀ file, s.Safe confs (.confOpen file) → s.Untouched confs file) ∧
    (∀ file, s.Untouched confs file ↔ s.Spared confs file) ∧ s.heap.released.Nodup ∧
    ∀ n, 0 < n → n < s.heap.next → (n ∈ s.heap.released ↔ ¬ s.Live n) := by
  obtain ⟨ids,sound⟩ := (configuration_keeps confs).run ⟨_,State.start_sound⟩ admitted ran
  have exact := s.untouched_iff confs sound.owned.positive
  refine ⟨?_,exact,sound.owned.once,fun n => sound.released_iff⟩
  intro file safe
  rw [exact]
  cases file with
  | none => trivial
  | some text =>
    rcases safe with empty | accepted
    · exact Or.inl empty
    · refine Or.inr ?_
      rw [accepted]

def srtOnly : List (RuntimeConf Unit) := [⟨ascii "srt",(),[]⟩]

theorem configuration_kept_reload :
    ∃ s : State Unit, (configuration srtOnly).run State.start
        [.confOpen (some (ascii "srt \x7b\n\x7d\n")),.hold,.confOpen (some (ascii "srt \x7b\n\x7d\n")),.drop 0] = some s ∧
      s.heap.released = [1] ∧ s.heap.released.Nodup ∧ ∀ n, 0 < n → n < s.heap.next → (n ∈ s.heap.released ↔ ¬ s.Live n) := by
  have accepted : recogniseText srtOnly (ascii "srt \x7b\n\x7d\n") = (true,true) := by decide +kernel
  have released : ((configuration srtOnly).run State.start
      [.confOpen (some (ascii "srt \x7b\n\x7d\n")),.hold,.confOpen (some (ascii "srt \x7b\n\x7d\n")),.drop 0]).map
        (fun s => s.heap.released) = some [1] := by
    decide +kernel
  obtain ⟨s,ran,once⟩ := Option.map_eq_some_iff.mp released
  have kept := configuration_kept srtOnly
    [.confOpen (some (ascii "srt \x7b\n\x7d\n")),.hold,.confOpen (some (ascii "srt \x7b\n\x7d\n")),.drop 0] s
    ⟨Or.inr accepted,fun _ _ => ⟨trivial,fun _ _ => ⟨Or.inr accepted,fun _ _ => ⟨trivial,fun _ _ => trivial⟩⟩⟩⟩ ran
  exact ⟨s,ran,once,kept.2.2.1,kept.2.2.2⟩

/-- An empty file takes the loaded tree off the root and releases it, and the
close that follows releases it again. -/
theorem empty_reload_releases_live_tree :
    (¬ ∀ (calls : List Call) (s : State Unit), (configuration srtOnly).run State.start calls = some s →
      ∀ file, s.Untouched srtOnly file) ∧
    ¬ ∀ (calls : List Call) (s : State Unit), (configuration srtOnly).run State.start calls = some s →
      s.heap.released.Nodup := by
  constructor
  · intro claim
    have loaded : ((configuration srtOnly).run State.start [.confOpen (some (ascii "srt \x7b\n\x7d\n"))]).map
        (fun s => (s.heap.next,s.heap.root)) = some (2,some 1) := by
      decide +kernel
    obtain ⟨s,ran,found⟩ := Option.map_eq_some_iff.mp loaded
    have next : s.heap.next = 2 := congrArg Prod.fst found
    have root : s.heap.root = some 1 := congrArg Prod.snd found
    have spared := (s.untouched_iff srtOnly (by rw [next]; decide) (some [])).mp (claim _ s ran (some []))
    rcases spared with empty | accepted
    · rw [root] at empty
      cases empty
    · exact absurd accepted (by decide +kernel)
  · intro claim
    have released : ((configuration srtOnly).run State.start
        [.confOpen (some (ascii "srt \x7b\n\x7d\n")),.confOpen (some []),.confClose]).map
          (fun s => s.heap.released) = some [1,1] := by
      decide +kernel
    obtain ⟨s,ran,twice⟩ := Option.map_eq_some_iff.mp released
    have once := claim _ s ran
    rw [twice] at once
    exact absurd once (by decide)

end SrtLiveServer.Conf
