import Mathlib.Data.List.Basic

/-! NAL units in a byte stream: emulation prevention, and the start codes that it keeps
out of a unit. -/
namespace AnnexB

section Escape

/-- A 3 goes behind two zeros if the next byte is at most 3; `zeros` are right before. -/
def escapeFrom : Nat → List UInt8 → List UInt8
  | _,[] => []
  | zeros,c::rest =>
    if 2 ≤ zeros ∧ c ≤ 3 then 3::c::escapeFrom (if c = 0 then 1 else 0) rest
    else c::escapeFrom (if c = 0 then zeros + 1 else 0) rest

def escape (rbsp : List UInt8) : List UInt8 := escapeFrom 0 rbsp

def unescapeFrom : Nat → List UInt8 → List UInt8
  | _,[] => []
  | zeros,c::rest =>
    if 2 ≤ zeros ∧ c = 3 then unescapeFrom 0 rest
    else c::unescapeFrom (if c = 0 then zeros + 1 else 0) rest

theorem unescapeFrom_escapeFrom (rbsp : List UInt8) (zeros : Nat) (more : List UInt8) :
    ∃ after, unescapeFrom zeros (escapeFrom zeros rbsp ++ more) = rbsp ++ unescapeFrom after more := by
  induction rbsp generalizing zeros with
  | nil => exact ⟨zeros,rfl⟩
  | cons c rest ih =>
    rw [escapeFrom]
    by_cases inserted : 2 ≤ zeros ∧ c ≤ 3
    · obtain ⟨after,same⟩ := ih (if c = 0 then 1 else 0)
      refine ⟨after,?_⟩
      rw [if_pos inserted,List.cons_append,List.cons_append,unescapeFrom,if_pos ⟨inserted.1,rfl⟩,unescapeFrom,
        if_neg (by omega),same,List.cons_append]
    · obtain ⟨after,same⟩ := ih (if c = 0 then zeros + 1 else 0)
      have kept : ¬ (2 ≤ zeros ∧ c = 3) := fun ⟨two,three⟩ => inserted ⟨two,three ▸ UInt8.le_refl 3⟩
      refine ⟨after,?_⟩
      rw [if_neg inserted,List.cons_append,unescapeFrom,if_neg kept,same,List.cons_append]

theorem unescapeFrom_zeros (count zeros : Nat) : unescapeFrom zeros (List.replicate count 0) = List.replicate count 0 := by
  induction count generalizing zeros with
  | zero => rfl
  | succ count ih => rw [List.replicate_succ,unescapeFrom,if_neg (fun both => absurd both.2 (by decide)),ih]

theorem unescapeFrom_length (bytes : List UInt8) (zeros : Nat) : (unescapeFrom zeros bytes).length ≤ bytes.length := by
  induction bytes generalizing zeros with
  | nil => exact Nat.le_refl 0
  | cons c rest ih =>
    rw [unescapeFrom]
    split
    · exact Nat.le_succ_of_le (ih 0)
    · exact Nat.succ_le_succ (ih _)

theorem escapeFrom_append (first second : List UInt8) (zeros : Nat) :
    ∃ after, escapeFrom zeros (first ++ second) = escapeFrom zeros first ++ escapeFrom after second := by
  induction first generalizing zeros with
  | nil => exact ⟨zeros,rfl⟩
  | cons c rest ih =>
    rw [List.cons_append,escapeFrom,escapeFrom]
    by_cases inserted : 2 ≤ zeros ∧ c ≤ 3
    · obtain ⟨after,same⟩ := ih (if c = 0 then 1 else 0)
      refine ⟨after,?_⟩
      rw [if_pos inserted,if_pos inserted,same,List.cons_append,List.cons_append]
    · obtain ⟨after,same⟩ := ih (if c = 0 then zeros + 1 else 0)
      refine ⟨after,?_⟩
      rw [if_neg inserted,if_neg inserted,same,List.cons_append]

theorem escapeFrom_getLast? (rbsp : List UInt8) (zeros : Nat) : (escapeFrom zeros rbsp).getLast? = rbsp.getLast? := by
  induction rbsp generalizing zeros with
  | nil => rfl
  | cons c rest ih =>
    rw [escapeFrom,List.getLast?_cons]
    split
    · rw [List.getLast?_cons_cons,List.getLast?_cons,ih]
    · rw [List.getLast?_cons,ih]

end Escape

section Clean

/-- No two zeros with a byte of at most 2 behind them. -/
def Clean (bytes : List UInt8) : Prop := ∀ before c after, bytes = before ++ 0::0::c::after → 2 < c

theorem Clean.of_append {first second : List UInt8} (clean : Clean (first ++ second)) : Clean first ∧ Clean second := by
  constructor
  · intro before c after same
    refine clean before c (after ++ second) ?_
    rw [same]
    simp
  · intro before c after same
    refine clean (first ++ before) c after ?_
    rw [same]
    simp

theorem Clean.cons {b : UInt8} {rest : List UInt8} (clean : Clean rest)
    (first : ∀ c after, b::rest = 0::0::c::after → 2 < c) : Clean (b::rest) := by
  intro before c after same
  cases before with
  | nil => exact first c after same
  | cons b' before =>
    injection same with _ tail
    exact clean before c after tail

theorem Clean.cons_of_ne {b : UInt8} {rest : List UInt8} (clean : Clean rest) (nonzero : b ≠ 0) : Clean (b::rest) :=
  clean.cons fun _ _ same => absurd (List.cons.inj same).1 nonzero

theorem Clean.zeros_cons {c : UInt8} {rest : List UInt8} {zeros : Nat} (clean : Clean rest) (nonzero : c ≠ 0) (few : zeros ≤ 2)
    (large : zeros = 2 → 2 < c) : Clean (List.replicate zeros 0 ++ c::rest) := by
  have here := clean.cons_of_ne nonzero
  have one : Clean (0::c::rest) := here.cons fun _ _ same => absurd (List.cons.inj (List.cons.inj same).2).1 nonzero
  match zeros,few with
  | 0,_ => exact here
  | 1,_ => exact one
  | 2,_ =>
    refine one.cons fun c' after same => ?_
    rw [← (List.cons.inj (List.cons.inj (List.cons.inj same).2).2).1]
    exact large rfl

theorem escapeFrom_clean (rbsp : List UInt8) (zeros : Nat) (few : zeros ≤ 2) :
    Clean (List.replicate zeros 0 ++ escapeFrom zeros rbsp) := by
  induction rbsp generalizing zeros with
  | nil =>
    intro before c after same
    have long := congrArg List.length same
    simp [escapeFrom] at long
    omega
  | cons c rest ih =>
    rw [escapeFrom]
    by_cases inserted : 2 ≤ zeros ∧ c ≤ 3
    · rw [if_pos inserted]
      refine Clean.zeros_cons ?_ (by decide) few fun _ => by decide
      by_cases zero : c = 0
      · rw [if_pos zero,zero]
        exact ih 1 (by decide)
      · rw [if_neg zero]
        exact (ih 0 (by decide)).cons_of_ne zero
    · rw [if_neg inserted]
      by_cases zero : c = 0
      · have fewer : zeros + 1 ≤ 2 := by
          by_contra many
          exact inserted ⟨by omega,by rw [zero]; decide⟩
        have shifted : List.replicate zeros 0 ++ c::escapeFrom (zeros + 1) rest =
            List.replicate (zeros + 1) 0 ++ escapeFrom (zeros + 1) rest := by
          rw [zero,List.replicate_succ',List.append_assoc]
          rfl
        rw [if_pos zero,shifted]
        exact ih (zeros + 1) fewer
      · rw [if_neg zero]
        refine (ih 0 (by decide)).zeros_cons zero few fun two => ?_
        have large : ¬ c ≤ 3 := fun small => inserted ⟨by omega,small⟩
        exact UInt8.not_le.mp fun small => large (UInt8.le_trans small (by decide))

theorem escape_clean (rbsp : List UInt8) : Clean (escape rbsp) := escapeFrom_clean rbsp 0 (by decide)

end Clean

section StartCode

/-- The length of the start code in front, which has three bytes or four. -/
def codeLength (bytes : List UInt8) : Option Nat :=
  if [0,0,1].isPrefixOf bytes = true then some 3
  else if [0,0,0,1].isPrefixOf bytes = true then some 4
  else none

/-- Zeros up to a start code, `zeros` of them more than the shortest has. -/
def startCode (zeros : Nat) : List UInt8 := List.replicate (zeros + 2) 0 ++ [1]

theorem startCode_length (zeros : Nat) : (startCode zeros).length = zeros + 3 := by simp [startCode]

theorem codeLength_startCode {zeros : Nat} (few : zeros ≤ 1) (after : List UInt8) :
    codeLength (startCode zeros ++ after) = some (zeros + 3) := by
  match zeros,few with
  | 0,_ => simp [codeLength,startCode,List.replicate_succ]
  | 1,_ => simp [codeLength,startCode,List.replicate_succ]

/-- The longest start code takes one zero more than the shortest; the others come before. -/
theorem startCode_split (zeros : Nat) : startCode zeros = List.replicate (zeros - 1) 0 ++ startCode (min zeros 1) := by
  have total : zeros + 2 = zeros - 1 + (min zeros 1 + 2) := by omega
  rw [startCode,startCode,total,List.replicate_add,List.append_assoc]

/-- No start code begins in `nal` when `after` follows. -/
def Quiet (nal after : List UInt8) : Prop :=
  ∀ before rest, nal = before ++ rest → rest ≠ [] → codeLength (rest ++ after) = none

theorem Quiet.tail {b : UInt8} {rest after : List UInt8} (quiet : Quiet (b::rest) after) : Quiet rest after := by
  intro before rest' same nonempty
  exact quiet (b::before) rest' (by rw [same]; rfl) nonempty

theorem zeros_quiet (zeros : Nat) (after : List UInt8) : Quiet (List.replicate (zeros - 1) 0) (startCode (min zeros 1) ++ after) := by
  intro before rest same nonempty
  have zero : ∀ b ∈ rest, b = 0 := fun b among => by
    have among : b ∈ List.replicate (zeros - 1) (0 : UInt8) := by
      rw [same]
      exact List.mem_append_right before among
    exact List.eq_of_mem_replicate among
  obtain ⟨count,counted⟩ : ∃ count, rest.length = count + 1 := ⟨rest.length - 1,by
    have positive := List.length_pos_iff.mpr nonempty
    omega⟩
  have many : min zeros 1 = 1 := by
    have long := congrArg List.length same
    rw [List.length_replicate,List.length_append] at long
    omega
  have front : rest ++ (startCode 1 ++ after) = 0::0::0::0::(List.replicate count 0 ++ 1::after) := by
    have split : List.replicate (count + 1) (0 : UInt8) ++ List.replicate 3 0 = List.replicate 4 0 ++ List.replicate count 0 := by
      rw [← List.replicate_add,← List.replicate_add]
      congr 1
      omega
    rw [List.eq_replicate_of_mem zero,counted,startCode,← List.append_assoc,← List.append_assoc,split]
    simp [List.replicate_succ]
  rw [many,front]
  simp [codeLength]

theorem Clean.quiet {nal after : List UInt8} (clean : Clean nal) (ended : after = [] ∨ nal.getLast? ≠ some 0) :
    Quiet nal after := by
  intro before rest same nonempty
  have last : after = [] ∨ rest.getLast? ≠ some 0 := by
    refine ended.imp_right fun nonzero => ?_
    rw [same,List.getLast?_append_of_ne_nil _ nonempty] at nonzero
    exact nonzero
  rw [same] at clean
  have cleanRest := clean.of_append.2
  match rest,nonempty with
  | [a],_ =>
    obtain rfl | nonzero := last
    · simp [codeLength]
    · have nonzero : a ≠ 0 := by simpa using nonzero
      simp [codeLength,Ne.symm nonzero]
  | [a,b],_ =>
    obtain rfl | nonzero := last
    · simp [codeLength]
    · have nonzero : b ≠ 0 := by simpa using nonzero
      simp [codeLength,Ne.symm nonzero]
  | a::b::c::rest,_ =>
    have large := cleanRest [] c rest
    by_cases zeros : a = 0 ∧ b = 0
    · obtain ⟨rfl,rfl⟩ := zeros
      have large : 2 < c := large rfl
      have noOne : ¬ (1 : UInt8) = c := by rintro rfl; exact absurd large (by decide)
      have noZero : ¬ (0 : UInt8) = c := by rintro rfl; exact absurd large (by decide)
      simp [codeLength,noOne,noZero]
    · have other : ¬ ((0 : UInt8) = a ∧ (0 : UInt8) = b) := fun both => zeros ⟨both.1.symm,both.2.symm⟩
      simp [codeLength]
      rw [if_neg fun code => other ⟨code.1,code.2.1⟩,if_neg fun code => other ⟨code.1,code.2.1⟩]

end StartCode

end AnnexB
