import Mathlib.Data.List.Basic
import Mathlib.Data.List.Perm.Subperm
import Mathlib.Logic.Function.Basic

/-! Tokens held in places, each by one place at most and there once. A step may drop
tokens, pass one from place to place or bring a new one in. -/
namespace Custody

universe u v

variable {Place : Type u} {Token : Type v}

structure Exclusive (holds : Place → List Token) : Prop where
  once : ∀ place, (holds place).Nodup
  unique : ∀ {place other token}, token ∈ holds place → token ∈ holds other → place = other

def Held (holds : Place → List Token) (token : Token) : Prop := ∃ place, token ∈ holds place

variable {holds next : Place → List Token}

theorem Exclusive.shrink (exclusive : Exclusive holds) (fewer : ∀ place, (next place).Subperm (holds place)) :
    Exclusive next where
  once := by
    intro place
    obtain ⟨list,same,within⟩ := fewer place
    exact same.nodup_iff.mp ((exclusive.once place).sublist within)
  unique := fun here there => exclusive.unique ((fewer _).subset here) ((fewer _).subset there)

theorem Exclusive.receive {place : Place} {arrivals : List Token} (exclusive : Exclusive holds) (distinct : arrivals.Nodup)
    (fresh : ∀ token ∈ arrivals, ¬ Held holds token) (gains : (next place).Perm (arrivals ++ holds place))
    (others : ∀ other, other ≠ place → next other = holds other) : Exclusive next where
  once := by
    intro other
    by_cases here : other = place
    · subst here
      exact gains.nodup_iff.mpr (List.nodup_append.mpr ⟨distinct,exclusive.once other,fun token new held among => by
        rintro rfl
        exact fresh token new ⟨other,among⟩⟩)
    · rw [others other here]
      exact exclusive.once other
  unique := by
    have origin : ∀ {spot held}, held ∈ next spot → held ∈ holds spot ∨ spot = place ∧ held ∈ arrivals := by
      intro spot held among
      by_cases here : spot = place
      · subst here
        exact (List.mem_append.mp (gains.subset among)).symm.imp_right fun new => ⟨rfl,new⟩
      · rw [others spot here] at among
        exact .inl among
    intro spot other held here there
    obtain here | ⟨rfl,new⟩ := origin here
    · obtain there | ⟨rfl,new⟩ := origin there
      · exact exclusive.unique here there
      · exact absurd ⟨spot,here⟩ (fresh held new)
    · obtain there | ⟨rfl,_⟩ := origin there
      · exact absurd ⟨other,there⟩ (fresh held new)
      · rfl

theorem Exclusive.released {source : Place} {given : List Token} (exclusive : Exclusive holds)
    (gives : (holds source).Perm (given ++ next source)) (others : ∀ other, other ≠ source → next other = holds other) :
    ∀ token ∈ given, ¬ Held next token := by
  rintro token moved ⟨place,among⟩
  have here : token ∈ holds source := gives.symm.subset (List.mem_append_left _ moved)
  by_cases same : place = source
  · subst same
    exact (List.nodup_append.mp (gives.nodup_iff.mp (exclusive.once place))).2.2 token moved token among rfl
  · rw [others place same] at among
    exact same (exclusive.unique among here)

theorem Exclusive.move [DecidableEq Place] {source target : Place} {moved : List Token} (exclusive : Exclusive holds)
    (apart : source ≠ target) (gives : (holds source).Perm (moved ++ next source))
    (gains : (next target).Perm (moved ++ holds target))
    (others : ∀ other, other ≠ source → other ≠ target → next other = holds other) : Exclusive next := by
  have kept : ∀ other, other ≠ source → Function.update holds source (next source) other = holds other :=
    fun other away => Function.update_of_ne away _ _
  have given : (holds source).Perm (moved ++ Function.update holds source (next source) source) := by
    rw [Function.update_self]
    exact gives
  have dropped : Exclusive (Function.update holds source (next source)) := by
    refine exclusive.shrink fun place => ?_
    by_cases here : place = source
    · subst here
      rw [Function.update_self]
      exact (List.sublist_append_right moved (next place)).subperm.trans gives.symm.subperm
    · rw [kept place here]
  have distinct : moved.Nodup := (List.nodup_append.mp (gives.nodup_iff.mp (exclusive.once source))).1
  have gained : (next target).Perm (moved ++ Function.update holds source (next source) target) := by
    rw [kept target apart.symm]
    exact gains
  refine dropped.receive distinct (exclusive.released given kept) gained fun other away => ?_
  by_cases here : other = source
  · subst here
    exact (Function.update_self other (next other) holds).symm
  · rw [kept other here]
    exact others other here away

end Custody
