import Mathlib.Data.Int.Basic
import Mathlib.Data.List.Induction

/-! Timed events in windows: one opens at the first event that is further than a length
behind the opening of the last one. In a throttled window the first events may pass, and
the later ones only at some distance from the last that passed, which bounds how many
pass. -/
namespace TimeWindows

variable {α : Type}

/-- The windows that are over, and the running one. -/
structure Split (α : Type) where
  closed : List (List α)
  running : List α

variable (time : α → Int) (length : Int)

def Split.push (s : Split α) (a : α) : Split α :=
  match s.running with
  | [] => {s with running := [a]}
  | first::_ => if time a - time first ≤ length then {s with running := s.running ++ [a]} else ⟨s.closed ++ [s.running],[a]⟩

def split (events : List α) : Split α := events.foldl (Split.push time length) ⟨[],[]⟩

/-- The running window, which is empty if nothing happened, stands last. -/
def windows (events : List α) : List (List α) := (split time length events).closed ++ [(split time length events).running]

section Splitting

variable {time length} {events : List α} {a first : α} {rest : List α}

theorem split_snoc : split time length (events ++ [a]) = (split time length events).push time length a := by
  unfold split
  rw [List.foldl_append]
  rfl

theorem windows_mem {closed : List (List α)} {last : List α} (same : split time length events = ⟨closed,last⟩) :
    ∀ window ∈ windows time length events, window ∈ closed ∨ window = last := by
  intro window member
  unfold windows at member
  rw [same] at member
  obtain before | ends := List.mem_append.mp member
  · exact Or.inl before
  · exact Or.inr (List.mem_singleton.mp ends)

theorem split_goes (running : (split time length events).running = first::rest) (soon : time a - time first ≤ length) :
    (split time length (events ++ [a])).running = (first::rest) ++ [a] ∧
      ∀ window ∈ windows time length (events ++ [a]), window ∈ windows time length events ∨ window = (first::rest) ++ [a] := by
  have next : split time length (events ++ [a]) = ⟨(split time length events).closed,(first::rest) ++ [a]⟩ := by
    rw [split_snoc]
    unfold Split.push
    rw [running]
    dsimp only
    rw [if_pos soon]
  refine ⟨congrArg Split.running next,fun window member => ?_⟩
  exact (windows_mem next window member).imp_left (List.mem_append_left _)

theorem split_opens (beyond : ∀ first ∈ (split time length events).running.head?, length < time a - time first) :
    (split time length (events ++ [a])).running = [a] ∧
      ∀ window ∈ windows time length (events ++ [a]), window ∈ windows time length events ∨ window = [a] := by
  cases running : (split time length events).running with
  | nil =>
    have next : split time length (events ++ [a]) = ⟨(split time length events).closed,[a]⟩ := by
      rw [split_snoc]
      unfold Split.push
      rw [running]
    refine ⟨congrArg Split.running next,fun window member => ?_⟩
    exact (windows_mem next window member).imp_left (List.mem_append_left _)
  | cons first rest =>
    rw [running] at beyond
    have late : ¬ time a - time first ≤ length := Int.not_le.mpr (beyond first rfl)
    have next : split time length (events ++ [a]) = ⟨windows time length events,[a]⟩ := by
      rw [split_snoc]
      unfold Split.push windows
      rw [running]
      dsimp only
      rw [if_neg late]
    exact ⟨congrArg Split.running next,windows_mem next⟩

theorem windows_flatten (events : List α) : (windows time length events).flatten = events := by
  induction events using List.reverseRecOn with
  | nil => rfl
  | append_singleton events a ih =>
    unfold windows at ih ⊢
    rw [List.flatten_append,List.flatten_singleton] at ih
    rw [split_snoc]
    unfold Split.push
    split
    · rename_i nothing
      rw [nothing,List.append_nil] at ih
      rw [List.flatten_append,List.flatten_singleton,ih]
    · rename_i first rest running
      split
      · rw [List.flatten_append,List.flatten_singleton,← List.append_assoc,ih]
      · rw [List.flatten_append,List.flatten_append,List.flatten_singleton,List.flatten_singleton,ih]

theorem running_mem (member : a ∈ (split time length events).running) : a ∈ events := by
  rw [← @windows_flatten α time length events]
  exact List.mem_flatten.mpr ⟨_,List.mem_append_right _ (List.mem_singleton_self _),member⟩

theorem running_whole (near : ∀ first ∈ events.head?, ∀ a ∈ events, time a - time first ≤ length) :
    (split time length events).running = events := by
  induction events using List.reverseRecOn with
  | nil => rfl
  | append_singleton events a ih =>
    cases events with
    | nil => rfl
    | cons first rest =>
      have before : (split time length (first::rest)).running = first::rest := by
        refine ih fun first' same b member => ?_
        exact near first' same b (List.mem_append_left _ member)
      exact (split_goes before (near first rfl a (List.mem_append_right _ (List.mem_singleton_self a)))).1

end Splitting

/-- The first event passes, and behind the first `limit` ones an event passes only at
`gap` or more from the last that passed. -/
structure Throttled (pass : α → Bool) (limit gap : Int) (window : List α) : Prop where
  inside : ∀ first rest, window = first::rest → ∀ a ∈ rest, time first ≤ time a ∧ time a - time first ≤ length
  opens : ∀ first ∈ window.head?, pass first = true
  spaced : ∀ before a after, window = before ++ a::after → limit ≤ before.length → pass a = true →
    ∃ b ∈ (before.filter pass).getLast?, gap ≤ time a - time b

section Throttling

variable {time length} {pass : α → Bool} {limit gap : Int} {window : List α} {a first : α} {rest : List α}

theorem Throttled.nil : Throttled time length pass limit gap [] where
  inside := fun first rest same => nomatch same
  opens := fun first none => nomatch none
  spaced := fun before a after same => absurd same.symm (by simp)

theorem Throttled.single (passes : pass a = true) (positive : 0 < limit) : Throttled time length pass limit gap [a] where
  inside := by
    rintro first rest ⟨⟩ b member
    cases member
  opens := by
    rintro first ⟨⟩
    exact passes
  spaced := by
    intro before b after same behind
    have few := congrArg List.length same
    rw [List.length_append,List.length_singleton,List.length_cons] at few
    omega

theorem Throttled.snoc (throttled : Throttled time length pass limit gap (first::rest)) (late : time first ≤ time a)
    (soon : time a - time first ≤ length)
    (waits : limit ≤ (first::rest).length → pass a = true → ∃ b ∈ ((first::rest).filter pass).getLast?, gap ≤ time a - time b) :
    Throttled time length pass limit gap ((first::rest) ++ [a]) where
  inside := by
    intro first' rest' same b member
    rw [List.cons_append] at same
    injection same with same tail
    subst same
    rw [← tail] at member
    obtain before | last := List.mem_append.mp member
    · exact throttled.inside first rest rfl b before
    · rw [List.mem_singleton.mp last]
      exact ⟨late,soon⟩
  opens := throttled.opens
  spaced := by
    intro before b after same
    obtain rfl | ⟨front,last,rfl⟩ := List.eq_nil_or_concat after
    · obtain ⟨whole,ends⟩ := List.append_inj' same rfl
      cases ends
      rw [← whole]
      exact waits
    · have parts : first::rest = before ++ b::front := by
        rw [List.concat_eq_append,← List.cons_append,← List.append_assoc] at same
        exact (List.append_inj' same rfl).1
      exact throttled.spaced before b front parts

theorem Throttled.front {other : List α} (throttled : Throttled time length pass limit gap (first::rest ++ other)) :
    Throttled time length pass limit gap (first::rest) where
  inside := by
    rintro _ _ ⟨⟩ a member
    exact throttled.inside first (rest ++ other) rfl a (List.mem_append_left _ member)
  opens := throttled.opens
  spaced := by
    intro before a after same
    refine throttled.spaced before a (after ++ other) ?_
    rw [same]
    simp

theorem Throttled.passes_spread (throttled : Throttled time length pass limit gap (first::rest)) (some : 1 ≤ limit) (wide : 0 < gap) :
    ∃ b ∈ ((first::rest).filter pass).getLast?,
      gap * ((first::rest).filter pass).length ≤ gap * limit + (time b - time first) := by
  induction rest using List.reverseRecOn with
  | nil =>
    have passes := throttled.opens first rfl
    rw [List.filter_cons_of_pos passes,List.filter_nil]
    refine ⟨first,rfl,?_⟩
    rw [List.length_singleton,Int.sub_self,Int.add_zero]
    exact Int.mul_le_mul_of_nonneg_left some (Int.le_of_lt wide)
  | append_singleton rest a ih =>
    have whole : Throttled time length pass limit gap ((first::rest) ++ [a]) := throttled
    obtain ⟨b,last,spread⟩ := ih whole.front
    show ∃ b ∈ (((first::rest) ++ [a]).filter pass).getLast?, gap * (((first::rest) ++ [a]).filter pass).length ≤ _
    rw [List.filter_append]
    by_cases passes : pass a = true
    · rw [List.filter_cons_of_pos passes,List.filter_nil,List.length_append,List.length_singleton,List.getLast?_concat]
      refine ⟨a,rfl,?_⟩
      rw [Int.natCast_add,Int.mul_add]
      by_cases many : limit ≤ (first::rest).length
      · obtain ⟨b',last',apart⟩ := whole.spaced (first::rest) a [] rfl many passes
        cases Option.some.inj (last.symm.trans last')
        omega
      · have late := (whole.inside first (rest ++ [a]) rfl a (by simp)).1
        have few := List.length_filter_le pass (first::rest)
        have less : gap * (((first::rest).filter pass).length + 1) ≤ gap * limit :=
          Int.mul_le_mul_of_nonneg_left (by omega) (Int.le_of_lt wide)
        rw [Int.mul_add] at less
        omega
    · rw [List.filter_cons_of_neg passes,List.filter_nil,List.append_nil]
      exact ⟨b,last,spread⟩

theorem Throttled.passes_le (throttled : Throttled time length pass limit gap window) (some : 1 ≤ limit) (wide : 0 < gap)
    (room : 1 ≤ limit + length / gap) : ((window.filter pass).length : Int) ≤ limit + length / gap := by
  cases window with
  | nil =>
    rw [List.filter_nil,List.length_nil]
    omega
  | cons first rest =>
    obtain ⟨b,last,spread⟩ := throttled.passes_spread some wide
    have among := List.mem_of_mem_getLast? last
    obtain rfl | ⟨c,member⟩ : rest = [] ∨ ∃ c, c ∈ rest := by
      cases rest with
      | nil => exact Or.inl rfl
      | cons c rest => exact Or.inr ⟨c,List.mem_cons_self⟩
    · have few := List.length_filter_le pass [first]
      rw [List.length_singleton] at few
      omega
    · have bound := throttled.inside first rest rfl c member
      have near : time b - time first ≤ length := by
        obtain rfl | later := List.mem_cons.mp (List.mem_filter.mp among).1
        · omega
        · exact (throttled.inside first rest rfl b later).2
      have beyond : (((first::rest).filter pass).length - limit) * gap ≤ length := by
        rw [Int.sub_mul,Int.mul_comm _ gap,Int.mul_comm _ gap]
        omega
      have quotient := Int.le_ediv_of_mul_le wide beyond
      omega

end Throttling

end TimeWindows
