import Mathlib.Data.List.Basic
import Mathlib.Logic.Function.Basic

/-! Tables whose entries are never replaced, filled from a list of entries. The first
entry of a key is its value, so a table filled twice, or only in part the first time, is
the table filled once. -/
namespace WriteOnce

universe u v

variable {Key : Type u} {Value : Type v} {table : Key → Option Value} {all done : List (Key × Value)} {key : Key} {value : Value}

def Covers (table : Key → Option Value) (done : List (Key × Value)) : Prop := ∀ entry ∈ done, table entry.1 ≠ none

section Insert

variable [DecidableEq Key]

def insert (table : Key → Option Value) (key : Key) (value : Value) : Key → Option Value :=
  if (table key).isSome then table else Function.update table key (some value)

theorem insert_covered (table : Key → Option Value) (key : Key) (value : Value) : insert table key value key ≠ none := by
  unfold insert
  split
  · rename_i present
    exact Option.isSome_iff_ne_none.mp present
  · rw [Function.update_self]
    exact Option.some_ne_none value

theorem insert_keeps {other : Key} (present : table other ≠ none) : insert table key value other = table other := by
  unfold insert
  split
  · rfl
  · rename_i absent
    have apart : other ≠ key := by
      rintro rfl
      exact absent (Option.isSome_iff_ne_none.mpr present)
    exact Function.update_of_ne apart _ _

theorem Covers.insert (covers : Covers table done) : Covers (insert table key value) (done ++ [(key,value)]) := by
  intro entry among
  obtain old | new := List.mem_append.mp among
  · rw [insert_keeps (covers entry old)]
    exact covers entry old
  · cases List.mem_singleton.mp new
    exact insert_covered table key value

end Insert

variable [BEq Key]

/-- The table holds nothing but what the first entries of `all` say. -/
def Settled (all : List (Key × Value)) (table : Key → Option Value) : Prop :=
  ∀ key value, table key = some value → all.lookup key = some value

/-- A table on its way to `all` that holds at least the entries of `done`. -/
structure Filled (all done : List (Key × Value)) (table : Key → Option Value) : Prop where
  settled : Settled all table
  covers : Covers table done

theorem Filled.nil (filled : Filled all done table) : Filled all [] table := ⟨filled.settled,fun _ among => nomatch among⟩

theorem Filled.frame (filled : Filled all done table) : Filled all (done ++ []) table := by
  rw [List.append_nil]
  exact filled

section Value

variable [DecidableEq Key]

theorem Filled.insert_value (filled : Filled all done (WriteOnce.insert table key value)) :
    WriteOnce.insert table key value key = all.lookup key := by
  obtain ⟨found,present⟩ := Option.ne_none_iff_exists'.mp (insert_covered table key value)
  rw [present,filled.settled key found present]

end Value

variable [LawfulBEq Key]

theorem Filled.full (filled : Filled all all table) : table = fun key => all.lookup key := by
  funext key
  cases present : table key with
  | some value => exact (filled.settled key value present).symm
  | none =>
    refine (List.lookup_eq_none_iff.mpr fun entry among => bne_iff_ne.mpr ?_).symm
    rintro rfl
    exact filled.covers entry among present

/-- No key has two values. -/
def Functional (all : List (Key × Value)) : Prop := ∀ one ∈ all, ∀ other ∈ all, one.1 = other.1 → one.2 = other.2

theorem Functional.lookup (functional : Functional all) : all.lookup key = some value ↔ (key,value) ∈ all := by
  constructor
  · intro found
    obtain ⟨before,after,rfl,_⟩ := List.lookup_eq_some_iff.mp found
    exact List.mem_append_right _ List.mem_cons_self
  · intro among
    cases found : all.lookup key with
    | none => exact absurd rfl (bne_iff_ne.mp (List.lookup_eq_none_iff.mp found (key,value) among))
    | some other =>
      obtain ⟨before,after,rfl,_⟩ := List.lookup_eq_some_iff.mp found
      exact congrArg some (functional (key,other) (List.mem_append_right _ List.mem_cons_self) (key,value) among rfl)

theorem functional_iff : Functional all ↔ ∀ entry ∈ all, all.lookup entry.1 = some entry.2 := by
  refine ⟨fun functional entry among => functional.lookup.mpr among,fun first one here other there same => ?_⟩
  have found := first one here
  rw [same,first other there] at found
  exact (Option.some.inj found).symm

section Fill

variable [DecidableEq Key]

theorem Filled.insert (filled : Filled all done table) (ahead : ∃ rest, all = done ++ (key,value)::rest) :
    Filled all (done ++ [(key,value)]) (insert table key value) := by
  refine ⟨?_,filled.covers.insert⟩
  obtain ⟨rest,rfl⟩ := ahead
  unfold WriteOnce.insert
  split
  · exact filled.settled
  rename_i absent
  intro other found present
  by_cases same : other = key
  · subst other
    rw [Function.update_self] at present
    cases present
    have new : done.lookup key = none := by
      rw [List.lookup_eq_none_iff]
      intro entry among
      rw [bne_iff_ne]
      rintro rfl
      exact absent (Option.isSome_iff_ne_none.mpr (filled.covers entry among))
    rw [List.lookup_append,new,Option.none_or,List.lookup_cons_self]
  · rw [Function.update_of_ne same] at present
    exact filled.settled other found present

end Fill

end WriteOnce
