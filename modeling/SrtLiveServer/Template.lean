import Mathlib.Data.List.Basic

/-! Texts with holes. Filling the holes with a value that holds none of the
separators commutes with taking the text apart at them, so two fillings of one
template have the same shape. -/
namespace Template

variable {α : Type}

/-- A hole is `none`. -/
def fill (value : List α) (template : List (Option α)) : List α := template.flatMap fun part => part.elim value ([·])

@[simp] theorem fill_nil (value : List α) : fill value [] = [] := rfl

@[simp] theorem fill_cons_none (value : List α) (rest : List (Option α)) :
    fill value (none::rest) = value ++ fill value rest := rfl

@[simp] theorem fill_cons_some (value : List α) (a : α) (rest : List (Option α)) :
    fill value (some a::rest) = a::fill value rest := rfl

theorem mem_fill (value : List α) (template : List (Option α)) (a : α) :
    a ∈ fill value template ↔ some a ∈ template ∨ (none ∈ template ∧ a ∈ value) := by
  induction template with
  | nil => simp
  | cons part rest ih =>
    cases part with
    | none =>
      simp only [fill_cons_none,List.mem_append,ih,List.mem_cons,reduceCtorEq,false_or,true_or,true_and]
      tauto
    | some b =>
      simp only [fill_cons_some,List.mem_cons,ih,Option.some_inj,reduceCtorEq,false_or]
      tauto

theorem fill_length (value : List α) (template : List (Option α)) :
    (fill value template).length = (template.filter Option.isSome).length +
      (template.filter Option.isNone).length * value.length := by
  induction template with
  | nil => simp
  | cons part rest ih =>
    cases part with
    | none =>
      simp only [fill_cons_none,List.length_append,ih,List.filter_cons,Option.isSome_none,Option.isNone_none,
        Bool.false_eq_true,if_false,if_true,List.length_cons,Nat.succ_mul]
      omega
    | some b => simp [ih]; omega

theorem fill_injective {value other : List α} (template : List (Option α)) (hole : none ∈ template)
    (same : fill value template = fill other template) : value = other := by
  have lengths : value.length = other.length := by
    have total := congrArg List.length same
    rw [fill_length,fill_length] at total
    have some : 0 < (template.filter Option.isNone).length :=
      List.length_pos_of_mem (List.mem_filter.mpr ⟨hole,rfl⟩)
    exact Nat.eq_of_mul_eq_mul_left some (by omega)
  induction template with
  | nil => cases hole
  | cons part rest ih =>
    cases part with
    | none => exact (List.append_inj same lengths).1
    | some b =>
      have inner : none ∈ rest := by simpa using hole
      exact ih inner (List.cons.inj same).2

theorem fill_eq_iff (value other : List α) (template : List (Option α)) :
    fill value template = fill other template ↔ none ∉ template ∨ value = other := by
  constructor
  · intro same
    by_cases hole : none ∈ template
    · exact .inr (fill_injective template hole same)
    · exact .inl hole
  · rintro (closed | rfl)
    · induction template with
      | nil => rfl
      | cons part rest ih =>
        cases part with
        | none => exact absurd List.mem_cons_self closed
        | some b => simp [ih fun member => closed (List.mem_cons_of_mem _ member)]
    · rfl

theorem fill_drop (value : List α) (n : Nat) (template : List (Option α)) (closed : none ∉ template.take n) :
    (fill value template).drop n = fill value (template.drop n) := by
  induction n generalizing template with
  | zero => rfl
  | succ n ih =>
    cases template with
    | nil => rfl
    | cons part rest =>
      cases part with
      | none => exact absurd List.mem_cons_self closed
      | some b => exact ih rest fun member => closed (List.mem_cons_of_mem _ member)

section Separators

variable {value : List α} {sep : α → Bool}

theorem fill_takeWhile (clear : ∀ a ∈ value, sep a = false) (template : List (Option α)) :
    (fill value template).takeWhile (fun a => !sep a) = fill value (template.takeWhile fun part => !part.any sep) := by
  induction template with
  | nil => rfl
  | cons part rest ih =>
    cases part with
    | none =>
      rw [fill_cons_none,List.takeWhile_append_of_pos (fun a member => by simp [clear a member]),ih]
      simp
    | some b =>
      cases isSep : sep b with
      | true => simp [isSep]
      | false => simp [isSep,ih]

def after (sep : α → Bool) (text : List α) : List α := (text.dropWhile fun a => !sep a).drop 1

theorem fill_after (clear : ∀ a ∈ value, sep a = false) (template : List (Option α)) :
    after sep (fill value template) = fill value (after (fun part => part.any sep) template) := by
  unfold after
  induction template with
  | nil => rfl
  | cons part rest ih =>
    cases part with
    | none =>
      rw [fill_cons_none,List.dropWhile_append_of_pos (fun a member => by simp [clear a member]),ih]
      simp
    | some b =>
      cases isSep : sep b with
      | true => simp [isSep]
      | false => simp [isSep,ih]

theorem mem_after {text : List α} {a : α} (member : a ∈ after sep text) : a ∈ text :=
  List.dropWhile_subset _ (List.mem_of_mem_drop member)

theorem after_append {front : List α} (found : ∃ a ∈ front, sep a = true) (rest : List α) :
    after sep (front ++ rest) = after sep front ++ rest := by
  unfold after
  induction front with
  | nil => simp at found
  | cons b front ih =>
    cases isSep : sep b with
    | true => simp [isSep]
    | false =>
      have later : ∃ a ∈ front, sep a = true := by simpa [isSep] using found
      simpa [isSep] using ih later

theorem after_eq_nil {text : List α} (none : ∀ a ∈ text, sep a = false) : after sep text = [] := by
  unfold after
  induction text with
  | nil => rfl
  | cons b rest ih =>
    rw [List.dropWhile_cons_of_pos (by simp [none b List.mem_cons_self])]
    exact ih fun a member => none a (List.mem_cons_of_mem b member)

theorem mem_splitOnP (text : List α) (a : α) :
    (∃ piece ∈ text.splitOnP sep, a ∈ piece) ↔ a ∈ text ∧ sep a = false := by
  induction text with
  | nil => simp
  | cons b rest ih =>
    obtain ⟨head,tail,split⟩ := List.exists_cons_of_ne_nil (List.splitOnP_ne_nil sep rest)
    rw [split] at ih
    rw [List.splitOnP_cons_eq_if_modifyHead,split]
    cases isSep : sep b with
    | true =>
      have other : sep a = false → a ≠ b := by
        rintro plain rfl
        rw [isSep] at plain
        cases plain
      rw [if_pos rfl,List.exists_mem_cons_iff,ih,List.mem_cons]
      simp only [List.not_mem_nil,false_or]
      exact ⟨fun h => ⟨.inr h.1,h.2⟩,fun h => ⟨h.1.resolve_left (other h.2),h.2⟩⟩
    | false =>
      rw [List.exists_mem_cons_iff] at ih
      rw [if_neg Bool.false_ne_true,List.modifyHead_cons,List.exists_mem_cons_iff,List.mem_cons,List.mem_cons,or_assoc,ih]
      by_cases same : a = b
      · simp [same,isSep]
      · simp [same]

theorem splitOnP_append_clear (clear : ∀ a ∈ value, sep a = false) {text head : List α} {tail : List (List α)}
    (split : text.splitOnP sep = head::tail) : (value ++ text).splitOnP sep = (value ++ head)::tail := by
  induction value with
  | nil => exact split
  | cons a rest ih =>
    rw [List.cons_append,List.splitOnP_cons_eq_if_modifyHead,ih fun b member => clear b (List.mem_cons_of_mem a member)]
    simp [clear a List.mem_cons_self]

theorem fill_splitOnP (clear : ∀ a ∈ value, sep a = false) (template : List (Option α)) :
    (fill value template).splitOnP sep = (template.splitOnP fun part => part.any sep).map (fill value) := by
  induction template with
  | nil => simp
  | cons part rest ih =>
    obtain ⟨head,tail,split⟩ := List.exists_cons_of_ne_nil (List.splitOnP_ne_nil (fun part => part.any sep) rest)
    rw [split] at ih
    cases part with
    | none =>
      rw [fill_cons_none,splitOnP_append_clear clear ih,List.splitOnP_cons_eq_if_modifyHead none,split]
      simp
    | some b =>
      rw [fill_cons_some,List.splitOnP_cons_eq_if_modifyHead,List.splitOnP_cons_eq_if_modifyHead (some b),split,ih]
      cases isSep : sep b <;> simp [isSep]

end Separators

end Template
