import Mathlib.Algebra.BigOperators.Group.Finset.Basic
import Mathlib.Data.Finset.Card

/-! Automata multiplexed through a table of fixed capacity. An input with a key goes to
the automaton of its key, which the first input of the key starts; a key that meets a
full table stays untracked. The outputs add up key by key, whatever the order in which
the keys are interleaved. -/
namespace Demultiplex

variable {κ ι σ : Type} [DecidableEq κ]

structure Automaton (ι σ : Type) where
  start : ι → σ
  next : σ → ι → σ × Nat

def Automaton.total (a : Automaton ι σ) : σ → List ι → Nat
  | _,[] => 0
  | s,x::rest => (a.next s x).2 + a.total (a.next s x).1 rest

def Automaton.last (a : Automaton ι σ) : σ → List ι → σ
  | s,[] => s
  | s,x::rest => a.last (a.next s x).1 rest

/-- The outputs for inputs of one key, the first of which starts the automaton. -/
def Automaton.alone (a : Automaton ι σ) : List ι → Nat
  | [] => 0
  | x::rest => a.total (a.start x) rest

def Automaton.resumed (a : Automaton ι σ) (state : Option σ) (inputs : List ι) : Nat :=
  match state with
  | none => a.alone inputs
  | some s => a.total s inputs

abbrev Table (κ σ : Type) : Type := List (κ × σ)

def lookup : Table κ σ → κ → Option σ
  | [],_ => none
  | entry::rest,k => if entry.1 = k then some entry.2 else lookup rest k

def update : Table κ σ → κ → σ → Table κ σ
  | [],_,_ => []
  | entry::rest,k,s => if entry.1 = k then (entry.1,s)::rest else entry::update rest k s

structure Demux (κ ι σ : Type) where
  key : ι → Option κ
  capacity : Nat
  automaton : Automaton ι σ

def Demux.step (d : Demux κ ι σ) (table : Table κ σ) (x : ι) : Table κ σ × Nat :=
  match d.key x with
  | none => (table,0)
  | some k =>
    match lookup table k with
    | none => (if table.length < d.capacity then table ++ [(k,d.automaton.start x)] else table,0)
    | some s => (update table k (d.automaton.next s x).1,(d.automaton.next s x).2)

def Demux.run (d : Demux κ ι σ) : Table κ σ → List ι → Table κ σ × Nat
  | table,[] => (table,0)
  | table,x::rest => ((d.run (d.step table x).1 rest).1,(d.step table x).2 + (d.run (d.step table x).1 rest).2)

def keys (table : Table κ σ) : List κ := table.map Prod.fst

theorem Automaton.total_append (a : Automaton ι σ) (s : σ) (first second : List ι) :
    a.total s (first ++ second) = a.total s first + a.total (a.last s first) second := by
  induction first generalizing s with
  | nil => exact (Nat.zero_add _).symm
  | cons x rest ih =>
    show (a.next s x).2 + a.total (a.next s x).1 (rest ++ second) = (a.next s x).2 + a.total (a.next s x).1 rest + _
    rw [ih,Nat.add_assoc]
    rfl

@[simp] theorem Automaton.resumed_nil (a : Automaton ι σ) (state : Option σ) : a.resumed state [] = 0 := by
  cases state <;> rfl

section Table

variable {table : Table κ σ} {k : κ}

theorem lookup_eq_none : lookup table k = none ↔ k ∉ keys table := by
  induction table with
  | nil =>
    constructor
    · intro _ member
      cases member
    · exact fun _ => rfl
  | cons entry rest ih =>
    unfold lookup keys
    rw [List.map_cons,List.mem_cons]
    by_cases same : entry.1 = k
    · rw [if_pos same]
      exact ⟨fun found => absurd found (Option.some_ne_none _),fun absent => absurd (Or.inl same.symm) absent⟩
    · rw [if_neg same,ih]
      exact ⟨fun absent member => member.elim (fun h => same h.symm) absent,fun absent member => absent (Or.inr member)⟩

theorem lookup_append {table : Table κ σ} {k : κ} (absent : k ∉ keys table) (s : σ) (other : κ) :
    lookup (table ++ [(k,s)]) other = if other = k then some s else lookup table other := by
  induction table with
  | nil =>
    show (if k = other then some s else none) = if other = k then some s else none
    simp only [eq_comm]
  | cons entry rest ih =>
    have later : k ∉ keys rest := fun member => absent (List.mem_cons_of_mem _ member)
    have first : entry.1 ≠ k := fun same => absent (same ▸ List.mem_cons_self)
    rw [List.cons_append]
    unfold lookup
    rw [ih later]
    by_cases here : entry.1 = other
    · rw [if_pos here,if_pos here,if_neg (here ▸ first)]
    · rw [if_neg here,if_neg here]

@[simp] theorem keys_update (table : Table κ σ) (k : κ) (s : σ) : keys (update table k s) = keys table := by
  induction table with
  | nil => rfl
  | cons entry rest ih =>
    unfold update
    split
    · rfl
    · exact congrArg (entry.1::·) ih

theorem lookup_update (tracked : k ∈ keys table) (s : σ) (other : κ) :
    lookup (update table k s) other = if other = k then some s else lookup table other := by
  induction table with
  | nil => exact nomatch tracked
  | cons entry rest ih =>
    unfold update
    by_cases first : entry.1 = k
    · rw [if_pos first]
      unfold lookup
      by_cases same : other = k
      · rw [if_pos same,if_pos (first.trans same.symm)]
      · rw [if_neg same]
        by_cases here : entry.1 = other
        · exact absurd (here.symm.trans first) same
        · rw [if_neg here,if_neg here]
    · have later : k ∈ keys rest := (List.mem_cons.mp tracked).resolve_left fun same => first same.symm
      rw [if_neg first]
      unfold lookup
      rw [ih later]
      by_cases here : entry.1 = other
      · rw [if_pos here,if_pos here,if_neg (here ▸ first)]
      · rw [if_neg here,if_neg here]

theorem update_same {s : σ} (state : lookup table k = some s) : update table k s = table := by
  induction table with
  | nil => rfl
  | cons entry rest ih =>
    unfold lookup at state
    unfold update
    by_cases same : entry.1 = k
    · rw [if_pos same] at state ⊢
      rw [← Option.some.inj state]
    · rw [if_neg same] at state ⊢
      rw [ih state]

end Table

variable (d : Demux κ ι σ) {table : Table κ σ} {k : κ} {x : ι}

theorem Demux.step_other (other : d.key x = none) : d.step table x = (table,0) := by
  unfold Demux.step
  rw [other]

theorem Demux.step_tracked (own : d.key x = some k) {s : σ} (tracked : lookup table k = some s) :
    d.step table x = (update table k (d.automaton.next s x).1,(d.automaton.next s x).2) := by
  unfold Demux.step
  rw [own]
  dsimp only
  rw [tracked]

theorem Demux.step_first (own : d.key x = some k) (untracked : lookup table k = none) :
    d.step table x = (if table.length < d.capacity then table ++ [(k,d.automaton.start x)] else table,0) := by
  unfold Demux.step
  rw [own]
  dsimp only
  rw [untracked]

/-- The keys of a table are distinct and fit it. -/
structure Demux.Sound (table : Table κ σ) : Prop where
  distinct : (keys table).Nodup
  fits : table.length ≤ d.capacity

theorem Demux.step_keys (table : Table κ σ) (x : ι) :
    keys (d.step table x).1 = keys table ∨
      ∃ k, d.key x = some k ∧ k ∉ keys table ∧ table.length < d.capacity ∧ keys (d.step table x).1 = keys table ++ [k] := by
  cases own : d.key x with
  | none =>
    rw [d.step_other own]
    exact Or.inl rfl
  | some k =>
    cases tracked : lookup table k with
    | some s =>
      rw [d.step_tracked own tracked]
      exact Or.inl (keys_update table k _)
    | none =>
      rw [d.step_first own tracked]
      by_cases room : table.length < d.capacity
      · rw [if_pos room]
        exact Or.inr ⟨k,rfl,lookup_eq_none.mp tracked,room,List.map_append⟩
      · rw [if_neg room]
        exact Or.inl rfl

omit [DecidableEq κ] in
theorem keys_length (table : Table κ σ) : (keys table).length = table.length := List.length_map _

theorem Demux.Sound.step {d : Demux κ ι σ} (sound : d.Sound table) (x : ι) : d.Sound (d.step table x).1 := by
  obtain ⟨distinct,fits⟩ := sound
  obtain same | ⟨k,_,absent,room,added⟩ := d.step_keys table x
  · refine ⟨same ▸ distinct,?_⟩
    rw [← keys_length,same,keys_length]
    exact fits
  · constructor
    · rw [added]
      exact List.nodup_append.mpr ⟨distinct,List.nodup_singleton k,fun a member b last same =>
        absent (List.mem_singleton.mp last ▸ same ▸ member)⟩
    · rw [← keys_length,added,List.length_append,keys_length]
      exact room

theorem Demux.Sound.run {d : Demux κ ι σ} {table : Table κ σ} (sound : d.Sound table) (inputs : List ι) :
    d.Sound (d.run table inputs).1 := by
  induction inputs generalizing table with
  | nil => exact sound
  | cons x rest ih => exact ih (sound.step x)

theorem Demux.run_append (table : Table κ σ) (first second : List ι) :
    d.run table (first ++ second) =
      ((d.run (d.run table first).1 second).1,(d.run table first).2 + (d.run (d.run table first).1 second).2) := by
  induction first generalizing table with
  | nil =>
    show d.run table second = (_,0 + _)
    rw [Nat.zero_add]
    rfl
  | cons x rest ih =>
    show ((d.run (d.step table x).1 (rest ++ second)).1,(d.step table x).2 + (d.run (d.step table x).1 (rest ++ second)).2) = _
    rw [ih,← Nat.add_assoc]
    rfl

theorem Demux.run_keeps {table : Table κ σ} {k : κ} (tracked : k ∈ keys table) (inputs : List ι) :
    k ∈ keys (d.run table inputs).1 := by
  induction inputs generalizing table with
  | nil => exact tracked
  | cons x rest ih =>
    refine ih ?_
    obtain same | ⟨_,_,_,_,added⟩ := d.step_keys table x
    · exact same ▸ tracked
    · rw [added]
      exact List.mem_append_left _ tracked

theorem Demux.run_occurs {table : Table κ σ} {k : κ} {inputs : List ι} (tracked : k ∈ keys (d.run table inputs).1) :
    k ∈ keys table ∨ k ∈ inputs.filterMap d.key := by
  induction inputs generalizing table with
  | nil => exact Or.inl tracked
  | cons x rest ih =>
    have later : k ∈ rest.filterMap d.key → k ∈ (x::rest).filterMap d.key := by
      intro member
      obtain ⟨y,among,own⟩ := List.mem_filterMap.mp member
      exact List.mem_filterMap.mpr ⟨y,List.mem_cons_of_mem x among,own⟩
    obtain here | member := ih tracked
    · obtain same | ⟨first,own,_,_,added⟩ := d.step_keys table x
      · exact Or.inl (same ▸ here)
      · rw [added] at here
        obtain before | new := List.mem_append.mp here
        · exact Or.inl before
        · rw [List.mem_singleton.mp new]
          exact Or.inr (List.mem_filterMap.mpr ⟨x,List.mem_cons_self,own⟩)
    · exact Or.inr (later member)

theorem Demux.run_grows (table : Table κ σ) (inputs : List ι) : table.length ≤ (d.run table inputs).1.length := by
  induction inputs generalizing table with
  | nil => exact Nat.le_refl _
  | cons x rest ih =>
    refine Nat.le_trans ?_ (ih (d.step table x).1)
    obtain same | ⟨_,_,_,_,added⟩ := d.step_keys table x
    · rw [← keys_length,← keys_length (d.step table x).1,same]
    · rw [← keys_length,← keys_length (d.step table x).1,added,List.length_append]
      exact Nat.le_add_right _ _

theorem Demux.step_refuses {table : Table κ σ} {k : κ} {x : ι} (own : d.key x = some k)
    (absent : k ∉ keys (d.step table x).1) : d.capacity ≤ (d.step table x).1.length := by
  have untracked : lookup table k = none := by
    refine lookup_eq_none.mpr fun member => absent ?_
    obtain same | ⟨_,_,_,_,added⟩ := d.step_keys table x
    · exact same ▸ member
    · exact added ▸ List.mem_append_left _ member
  rw [d.step_first own untracked] at absent ⊢
  dsimp only at absent ⊢
  split at absent
  · exact absurd (by simp [keys]) absent
  · rename_i full
    rw [if_neg full]
    exact Nat.le_of_not_lt full

theorem Demux.run_full {table : Table κ σ} (full : d.capacity ≤ table.length) (inputs : List ι) :
    keys (d.run table inputs).1 = keys table := by
  induction inputs generalizing table with
  | nil => rfl
  | cons x rest ih =>
    have same : keys (d.step table x).1 = keys table :=
      (d.step_keys table x).resolve_right fun ⟨_,_,_,room,_⟩ => absurd room (Nat.not_lt.mpr full)
    refine (ih ?_).trans same
    rw [← keys_length,same,keys_length]
    exact full

theorem Demux.run_tracks {table : Table κ σ} {k : κ} {inputs : List ι} (occurs : k ∈ inputs.filterMap d.key) :
    k ∈ keys (d.run table inputs).1 ∨ d.capacity ≤ (d.run table inputs).1.length := by
  induction inputs generalizing table with
  | nil => cases occurs
  | cons x rest ih =>
    obtain ⟨y,among,own⟩ := List.mem_filterMap.mp occurs
    obtain rfl | later := List.mem_cons.mp among
    · by_cases tracked : k ∈ keys (d.step table y).1
      · exact Or.inl (d.run_keeps tracked rest)
      · exact Or.inr (Nat.le_trans (d.step_refuses own tracked) (d.run_grows (d.step table y).1 rest))
    · exact ih (List.mem_filterMap.mpr ⟨y,later,own⟩)

theorem filter_own {k : κ} {x : ι} (own : d.key x = some k) (rest : List ι) :
    (x::rest).filter (fun y => d.key y = some k) = x::rest.filter fun y => d.key y = some k :=
  List.filter_cons_of_pos (by simp [own])

theorem filter_foreign {k : κ} {x : ι} (other : d.key x ≠ some k) (rest : List ι) :
    (x::rest).filter (fun y => d.key y = some k) = rest.filter fun y => d.key y = some k :=
  List.filter_cons_of_neg (by simp [other])

theorem Demux.step_resumed (table : Table κ σ) (x : ι) (rest : List ι) {tracked : Finset κ}
    (grows : ∀ k ∈ keys (d.step table x).1, k ∈ tracked)
    (full : ∀ k ∈ tracked, k ∉ keys (d.step table x).1 → d.key x ≠ some k) :
    (d.step table x).2 + ∑ k ∈ tracked, d.automaton.resumed (lookup (d.step table x).1 k) (rest.filter fun y => d.key y = some k) =
      ∑ k ∈ tracked, d.automaton.resumed (lookup table k) ((x::rest).filter fun y => d.key y = some k) := by
  cases own : d.key x with
  | none =>
    rw [d.step_other own,Nat.zero_add]
    refine Finset.sum_congr rfl fun k _ => ?_
    rw [filter_foreign d (by rw [own]; exact (Option.some_ne_none k).symm)]
  | some j =>
    have foreign : ∀ k, k ≠ j → d.key x ≠ some k := by
      intro k other same
      rw [own] at same
      exact other (Option.some.inj same).symm
    cases state : lookup table j with
    | some s =>
      have here : j ∈ keys table := by
        by_contra absent
        rw [lookup_eq_none.mpr absent] at state
        cases state
      have among : j ∈ tracked := by
        refine grows j ?_
        rw [d.step_tracked own state,keys_update]
        exact here
      rw [d.step_tracked own state,← Finset.add_sum_erase _ _ among,← Finset.add_sum_erase tracked _ among,
        lookup_update here,if_pos rfl,state,filter_own d own,← Nat.add_assoc]
      congr 1
      refine Finset.sum_congr rfl fun k member => ?_
      have other := Finset.ne_of_mem_erase member
      rw [lookup_update here,if_neg other,filter_foreign d (foreign k other)]
    | none =>
      have absent : j ∉ keys table := lookup_eq_none.mp state
      rw [d.step_first own state] at full ⊢
      dsimp only at full ⊢
      rw [Nat.zero_add]
      refine Finset.sum_congr rfl fun k member => ?_
      by_cases room : table.length < d.capacity
      · rw [if_pos room,lookup_append absent]
        by_cases same : k = j
        · subst same
          rw [if_pos rfl,state,filter_own d own]
          rfl
        · rw [if_neg same,filter_foreign d (foreign k same)]
      · rw [if_neg room] at full ⊢
        by_cases same : k = j
        · subst same
          exact absurd own (full k member absent)
        · rw [filter_foreign d (foreign k same)]

/-- What is put out is the sum over the tracked keys of what their inputs put out by themselves. -/
theorem Demux.run_total (table : Table κ σ) (inputs : List ι) (sound : d.Sound table) :
    (d.run table inputs).2 = ∑ k ∈ (keys (d.run table inputs).1).toFinset,
      d.automaton.resumed (lookup table k) (inputs.filter fun y => d.key y = some k) := by
  induction inputs generalizing table with
  | nil => exact (Finset.sum_eq_zero fun k _ => d.automaton.resumed_nil _).symm
  | cons x rest ih =>
    show (d.step table x).2 + (d.run (d.step table x).1 rest).2 = ∑ k ∈ (keys (d.run (d.step table x).1 rest).1).toFinset, _
    rw [ih (d.step table x).1 (sound.step x)]
    refine d.step_resumed table x rest ?_ ?_
    · intro k tracked
      exact List.mem_toFinset.mpr (d.run_keeps tracked rest)
    · intro k member absent own
      have filled := d.step_refuses own absent
      rw [List.mem_toFinset,d.run_full filled] at member
      exact absent member

/-- Where the table has room for all keys, each of them counts. -/
theorem Demux.total_eq_sum {inputs : List ι} (few : (inputs.filterMap d.key).toFinset.card ≤ d.capacity) :
    (d.run [] inputs).2 = ∑ k ∈ (inputs.filterMap d.key).toFinset, d.automaton.alone (inputs.filter fun y => d.key y = some k) := by
  have empty : d.Sound [] := ⟨List.nodup_nil,Nat.zero_le _⟩
  have sound := empty.run inputs
  have all : (keys (d.run [] inputs).1).toFinset = (inputs.filterMap d.key).toFinset := by
    apply Finset.Subset.antisymm
    · intro k tracked
      obtain nothing | occurs := d.run_occurs (List.mem_toFinset.mp tracked)
      · cases nothing
      · exact List.mem_toFinset.mpr occurs
    · intro k occurs
      rw [List.mem_toFinset] at occurs ⊢
      obtain tracked | full : k ∈ keys (d.run [] inputs).1 ∨ d.capacity ≤ (d.run [] inputs).1.length := d.run_tracks occurs
      · exact tracked
      · by_contra untracked
        have inside : insert k (keys (d.run [] inputs).1).toFinset ⊆ (inputs.filterMap d.key).toFinset := by
          intro j member
          rw [List.mem_toFinset]
          obtain rfl | tracked := Finset.mem_insert.mp member
          · exact occurs
          · exact (d.run_occurs (List.mem_toFinset.mp tracked)).resolve_left fun nothing => nomatch nothing
        have more := Finset.card_le_card inside
        rw [Finset.card_insert_of_notMem (fun member => untracked (List.mem_toFinset.mp member)),
          List.toFinset_card_of_nodup sound.distinct,keys_length] at more
        omega
  rw [d.run_total [] inputs empty,all]
  rfl

theorem Demux.total_own {inputs : List ι} {k : κ} (own : ∀ x ∈ inputs, d.key x = some k) (room : 0 < d.capacity) :
    (d.run [] inputs).2 = d.automaton.alone inputs := by
  cases inputs with
  | nil => rfl
  | cons x rest =>
    have only : ((x::rest).filterMap d.key).toFinset = {k} := by
      ext j
      rw [List.mem_toFinset,List.mem_filterMap,Finset.mem_singleton]
      constructor
      · rintro ⟨y,member,found⟩
        rw [own y member] at found
        exact (Option.some.inj found).symm
      · rintro rfl
        exact ⟨x,List.mem_cons_self,own x List.mem_cons_self⟩
    have all : (x::rest).filter (fun y => d.key y = some k) = x::rest :=
      List.filter_eq_self.mpr fun y member => by simp [own y member]
    rw [d.total_eq_sum (by rw [only]; exact room),only,Finset.sum_singleton,all]

end Demultiplex
