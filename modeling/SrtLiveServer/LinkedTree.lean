import Mathlib.Data.List.Nodup
import Mathlib.Data.List.Perm.Basic

/-! Trees of records with two links each, held in a heap: which records hang below
a pointer, how that changes when a free link receives a new record, and which
ordered forest the records show when the links lead to the first child and to
the next sibling. -/
namespace LinkedTree

universe u
variable {α : Type u} {link next : Bool → α → Option α} {pointer : Option α} {ids : List α}

/-- The records below a pointer: those of the first link, those of the second,
then the record itself. -/
inductive Spans (link : Bool → α → Option α) : Option α → List α → Prop where
  | leaf : Spans link none []
  | node {i : α} {first second : List α} (left : Spans link (link true i) first)
      (right : Spans link (link false i) second) : Spans link (some i) (first ++ second ++ [i])

theorem Spans.eq_nil (spans : Spans link none ids) : ids = [] := by
  cases spans
  rfl

theorem Spans.root_mem {i : α} (spans : Spans link (some i) ids) : i ∈ ids := by
  cases spans
  exact List.mem_append_right _ (List.mem_singleton.mpr rfl)

theorem Spans.unique {other : List α} (spans : Spans link pointer ids) (again : Spans link pointer other) : ids = other := by
  induction spans generalizing other with
  | leaf => exact again.eq_nil.symm
  | node left right leftIh rightIh =>
    cases again with
    | node left' right' => rw [leftIh left',rightIh right']

theorem Spans.congr (spans : Spans link pointer ids) (same : ∀ i ∈ ids, ∀ side, next side i = link side i) :
    Spans next pointer ids := by
  induction spans with
  | leaf => exact Spans.leaf
  | @node i first second left right leftIh rightIh =>
    have here : ∀ side, next side i = link side i := same i (by simp)
    have below : ∀ j ∈ first, ∀ side, next side j = link side j := fun j member => same j (by simp [member])
    have beside : ∀ j ∈ second, ∀ side, next side j = link side j := fun j member => same j (by simp [member])
    refine Spans.node ?_ ?_
    · rw [here]
      exact leftIh below
    · rw [here]
      exact rightIh beside

theorem Spans.attach {b fresh : α} {side : Bool} (spans : Spans link pointer ids) (distinct : ids.Nodup) (inside : b ∈ ids)
    (free : link side b = none) (set : next side b = some fresh) (bare : ∀ s, next s fresh = none)
    (kept : ∀ i ∈ ids, ∀ s, i ≠ b ∨ s ≠ side → next s i = link s i) :
    ∃ grown, grown.Perm (fresh::ids) ∧ Spans next pointer grown := by
  have single : Spans next (some fresh) [fresh] := by
    have node : Spans next (some fresh) ([] ++ [] ++ [fresh]) :=
      Spans.node (by rw [bare]; exact Spans.leaf) (by rw [bare]; exact Spans.leaf)
    exact node
  induction spans with
  | leaf => cases inside
  | @node i first second left right leftIh rightIh =>
    obtain ⟨below,_,apart⟩ := List.nodup_append.mp distinct
    obtain ⟨firstNodup,secondNodup,disjoint⟩ := List.nodup_append.mp below
    have outFirst : i ∉ first := fun member => apart i (by simp [member]) i (by simp) rfl
    have outSecond : i ∉ second := fun member => apart i (by simp [member]) i (by simp) rfl
    have keptFirst : ∀ j ∈ first, ∀ s, j ≠ b ∨ s ≠ side → next s j = link s j :=
      fun j member => kept j (by simp [member])
    have keptSecond : ∀ j ∈ second, ∀ s, j ≠ b ∨ s ≠ side → next s j = link s j :=
      fun j member => kept j (by simp [member])
    have keptHere : ∀ s, i ≠ b ∨ s ≠ side → next s i = link s i := kept i (by simp)
    by_cases here : i = b
    · subst i
      have left' : Spans next (link true b) first :=
        left.congr fun j member s => keptFirst j member s (Or.inl fun same => outFirst (same ▸ member))
      have right' : Spans next (link false b) second :=
        right.congr fun j member s => keptSecond j member s (Or.inl fun same => outSecond (same ▸ member))
      cases side with
      | true =>
        rw [free] at left'
        have empty := left'.eq_nil
        subst empty
        refine ⟨[fresh] ++ second ++ [b],by simp,Spans.node ?_ ?_⟩
        · rw [set]
          exact single
        · rw [keptHere false (Or.inr (by decide))]
          exact right'
      | false =>
        rw [free] at right'
        have empty := right'.eq_nil
        subst empty
        refine ⟨first ++ [fresh] ++ [b],?_,Spans.node ?_ ?_⟩
        · simp only [List.append_nil,List.append_assoc,List.singleton_append]
          exact List.perm_middle
        · rw [keptHere true (Or.inr (by decide))]
          exact left'
        · rw [set]
          exact single
    · have left' : next true i = link true i := keptHere true (Or.inl here)
      have right' : next false i = link false i := keptHere false (Or.inl here)
      have child : b ∈ first ∨ b ∈ second := by
        simpa [Ne.symm here] using inside
      rcases child with member | member
      · have outside : b ∉ second := fun other => disjoint b member b other rfl
        obtain ⟨grown,permuted,spanned⟩ := leftIh firstNodup member keptFirst
        refine ⟨grown ++ second ++ [i],?_,Spans.node ?_ ?_⟩
        · exact (permuted.append_right second).append_right [i]
        · rw [left']
          exact spanned
        · rw [right']
          exact right.congr fun j other s => keptSecond j other s (Or.inl fun same => outside (same ▸ other))
      · have outside : b ∉ first := fun other => disjoint b other b member rfl
        obtain ⟨grown,permuted,spanned⟩ := rightIh secondNodup member keptSecond
        refine ⟨first ++ grown ++ [i],?_,Spans.node ?_ ?_⟩
        · refine (((permuted.append_left first).trans List.perm_middle).append_right [i])
        · rw [left']
          exact left.congr fun j other s => keptFirst j other s (Or.inl fun same => outside (same ▸ other))
        · rw [right']
          exact spanned

/-- Pointers stay inside the tree: a record's links lead to records below it. -/
theorem Spans.inside (spans : Spans link pointer ids) {i j : α} (member : i ∈ ids) {side : Bool}
    (points : link side i = some j) : j ∈ ids := by
  induction spans with
  | leaf => cases member
  | @node root first second left right leftIh rightIh =>
    simp only [List.mem_append,List.mem_singleton] at member ⊢
    rcases member with (below | beside) | rfl
    · exact Or.inl (Or.inl (leftIh below))
    · exact Or.inl (Or.inr (rightIh beside))
    · cases side with
      | true =>
        rw [points] at left
        exact Or.inl (Or.inl left.root_mem)
      | false =>
        rw [points] at right
        exact Or.inl (Or.inr right.root_mem)

/-- An ordered tree with labels. -/
inductive Rose (β : Type u) where
  | node (label : β) (nested : List (Rose β))

/-- The records `ids` from a pointer on show a forest: the first link of each
leads to its children and the second to the rest of its own level. -/
inductive Shows {β : Type u} (link : Bool → α → Option α) (label : α → β) : Option α → List α → List (Rose β) → Prop where
  | leaf : Shows link label none [] []
  | node {i : α} {below beside : List α} {nested rest : List (Rose β)}
      (children : Shows link label (link true i) below nested)
      (siblings : Shows link label (link false i) beside rest) :
      Shows link label (some i) (i::(below ++ beside)) (.node (label i) nested::rest)

theorem Shows.congr {β : Type u} {label other : α → β} {forest : List (Rose β)} (shown : Shows link label pointer ids forest)
    (links : ∀ i ∈ ids, ∀ side, next side i = link side i) (labels : ∀ i ∈ ids, other i = label i) :
    Shows next other pointer ids forest := by
  induction shown with
  | leaf => exact Shows.leaf
  | @node i below beside nested rest children siblings childrenIh siblingsIh =>
    have lower : ∀ j ∈ below, j ∈ i::(below ++ beside) := fun j member => by simp [member]
    have later : ∀ j ∈ beside, j ∈ i::(below ++ beside) := fun j member => by simp [member]
    have here : i ∈ i::(below ++ beside) := List.mem_cons_self
    rw [← labels i here]
    apply Shows.node
    · rw [links i here]
      exact childrenIh (fun j member => links j (lower j member)) fun j member => labels j (lower j member)
    · rw [links i here]
      exact siblingsIh (fun j member => links j (later j member)) fun j member => labels j (later j member)

end LinkedTree
