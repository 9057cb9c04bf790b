import Mathlib.Data.List.GetD
import SrtLiveServer.Bytes

/-! The comparison of API keys at the control API. It folds the difference of the
lengths into the eight bits that collect the differences of the bytes. -/
namespace SrtLiveServer.ApiKey
open Bytes

def slsCtEqual (a b : Text) : Bool :=
  let n := if b.length < a.length then a.length else b.length
  let diff := (List.range n).foldl (fun diff i => diff ||| (a.getD i 0 ^^^ b.getD i 0))
    (UInt8.ofNat (a.length ^^^ b.length))
  diff == 0

/-- `b` is `a` with some blocks of 256 NUL bytes behind it. -/
def NulTail (a b : Text) : Prop := ∃ k, b = a ++ List.replicate (256 * (k + 1)) 0

theorem or_eq_zero (x y : UInt8) : x ||| y = 0 ↔ x = 0 ∧ y = 0 := by
  simp only [← UInt8.toNat_inj,UInt8.toNat_or]
  exact Nat.or_eq_zero_iff

theorem foldl_or_eq_zero (f : Nat → UInt8) (indices : List Nat) (diff : UInt8) :
    indices.foldl (fun diff i => diff ||| f i) diff = 0 ↔ diff = 0 ∧ ∀ i ∈ indices, f i = 0 := by
  induction indices generalizing diff with
  | nil => simp
  | cons i rest ih =>
    rw [List.foldl_cons,ih,or_eq_zero,List.forall_mem_cons]
    exact and_assoc

theorem lengths_xor (m n : Nat) : UInt8.ofNat (m ^^^ n) = 0 ↔ m % 256 = n % 256 := by
  rw [UInt8.ofNat_xor,UInt8.xor_eq_zero_iff,← UInt8.toNat_inj,UInt8.toNat_ofNat',UInt8.toNat_ofNat']

theorem slsCtEqual_bytes (a b : Text) :
    slsCtEqual a b = true ↔ a.length % 256 = b.length % 256 ∧ ∀ i, a.getD i 0 = b.getD i 0 := by
  have bytes : ∀ i, a.getD i 0 ^^^ b.getD i 0 = 0 ↔ a.getD i 0 = b.getD i 0 := fun i => UInt8.xor_eq_zero_iff
  unfold slsCtEqual
  rw [beq_iff_eq,foldl_or_eq_zero,lengths_xor]
  refine and_congr_right fun _ => ?_
  constructor
  · intro same i
    by_cases inside : i < (if b.length < a.length then a.length else b.length)
    · exact (bytes i).mp (same i (List.mem_range.mpr inside))
    · have outside : a.length ≤ i ∧ b.length ≤ i := by split at inside <;> omega
      rw [List.getD_eq_default _ _ outside.1,List.getD_eq_default _ _ outside.2]
  · intro same i _
    exact (bytes i).mpr (same i)

theorem getD_nul_tail (a : Text) (k i : Nat) : (a ++ List.replicate k 0).getD i 0 = a.getD i 0 := by
  by_cases inside : i < a.length
  · rw [List.getD_append _ _ _ _ inside]
  · rw [List.getD_append_right _ _ _ _ (by omega),List.getD_eq_default a _ (by omega)]
    by_cases tail : i - a.length < k
    · rw [List.getD_replicate _ tail]
    · rw [List.getD_eq_default _ _ (by rw [List.length_replicate]; omega)]

theorem eq_append_nuls {a b : Text} (shorter : a.length ≤ b.length) (same : ∀ i, a.getD i 0 = b.getD i 0) :
    b = a ++ List.replicate (b.length - a.length) 0 := by
  apply List.ext_getElem
  · rw [List.length_append,List.length_replicate]
    omega
  · intro i left right
    have here := same i
    rw [← getD_nul_tail a (b.length - a.length) i,List.getD_eq_getElem _ _ left,List.getD_eq_getElem _ _ right] at here
    exact here.symm

theorem slsCtEqual_nulTail {a b : Text} (tail : NulTail a b) : slsCtEqual a b = true ∧ slsCtEqual b a = true := by
  obtain ⟨k,rfl⟩ := tail
  have lengths : (a ++ List.replicate (256 * (k + 1)) (0 : UInt8)).length % 256 = a.length % 256 := by
    rw [List.length_append,List.length_replicate]
    omega
  constructor
  · rw [slsCtEqual_bytes]
    exact ⟨lengths.symm,fun i => (getD_nul_tail a _ i).symm⟩
  · rw [slsCtEqual_bytes]
    exact ⟨lengths,fun i => getD_nul_tail a _ i⟩

theorem NulTail.ne {a b : Text} (tail : NulTail a b) : a ≠ b := by
  obtain ⟨k,rfl⟩ := tail
  intro same
  have lengths := congrArg List.length same
  rw [List.length_append,List.length_replicate] at lengths
  omega

theorem slsCtEqual_iff (a b : Text) : slsCtEqual a b = true ↔ a = b ∨ NulTail a b ∨ NulTail b a := by
  constructor
  · intro equal
    obtain ⟨lengths,same⟩ := (slsCtEqual_bytes a b).mp equal
    rcases Nat.lt_trichotomy a.length b.length with less | level | more
    · refine Or.inr (Or.inl ⟨(b.length - a.length) / 256 - 1,?_⟩)
      have blocks : 256 * ((b.length - a.length) / 256 - 1 + 1) = b.length - a.length := by omega
      rw [blocks]
      exact eq_append_nuls (Nat.le_of_lt less) same
    · left
      have whole := eq_append_nuls (Nat.le_of_eq level) same
      rw [level,Nat.sub_self,List.replicate_zero,List.append_nil] at whole
      exact whole.symm
    · refine Or.inr (Or.inr ⟨(a.length - b.length) / 256 - 1,?_⟩)
      have blocks : 256 * ((a.length - b.length) / 256 - 1 + 1) = a.length - b.length := by omega
      rw [blocks]
      exact eq_append_nuls (Nat.le_of_lt more) fun i => (same i).symm
  · rintro (rfl | tail | tail)
    · rw [slsCtEqual_bytes]
      exact ⟨rfl,fun _ => rfl⟩
    · exact (slsCtEqual_nulTail tail).1
    · exact (slsCtEqual_nulTail tail).2

/-- The comparison decides equality of two keys unless one is the other with
blocks of 256 NUL bytes behind it. -/
theorem ct_equal_decides_iff (a b : Text) :
    (slsCtEqual a b = true ↔ a = b) ↔ ¬ NulTail a b ∧ ¬ NulTail b a := by
  rw [slsCtEqual_iff]
  constructor
  · intro decides
    constructor
    · intro tail
      exact tail.ne (decides.mp (Or.inr (Or.inl tail)))
    · intro tail
      exact tail.ne (decides.mp (Or.inr (Or.inr tail))).symm
  · rintro ⟨left,right⟩
    constructor
    · rintro (same | tail | tail)
      · exact same
      · exact absurd tail left
      · exact absurd tail right
    · exact Or.inl

theorem empty_key_equals_nuls : ¬ ∀ a b : Text, slsCtEqual a b = true ↔ a = b := by
  intro claim
  have tail : NulTail [] (List.replicate 256 0) := ⟨0,rfl⟩
  exact tail.ne ((claim [] (List.replicate 256 0)).mp (slsCtEqual_nulTail tail).1)

end SrtLiveServer.ApiKey
