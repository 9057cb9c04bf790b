import Mathlib.Data.List.Basic
import Mathlib.Data.List.DropRight

/-! Byte strings as the C and C++ text functions see them: trimming, splitting
at a separator, and tokens as `strtok` yields them. -/
namespace Bytes

abbrev Text : Type := List UInt8

instance : LawfulBEq Text := inferInstance

def byte (c : Char) : UInt8 := UInt8.ofNat c.toNat

def ascii (s : String) : Text := s.toList.map byte

def isSpace (b : UInt8) : Bool := b == 0x20 || (0x09 ≤ b && b ≤ 0x0d)

def isDigit (b : UInt8) : Bool := byte '0' ≤ b && b ≤ byte '9'

/-- The nonempty runs between delimiters, in order: what successive `strtok` calls yield. -/
def tokens (delimiter : UInt8 → Bool) (text : Text) : List Text :=
  (text.splitOnP delimiter).filter fun piece => !piece.isEmpty

/-- What a C function reads of a `std::string` handed over by `c_str()`. -/
def cStr (text : Text) : Text := text.takeWhile (· != 0)

def strlcpy (text : Text) (size : Nat) : Text := text.take (size - 1)

def trimBy (blank : UInt8 → Bool) (text : Text) : Text := (text.dropWhile blank).rdropWhile blank

theorem strlcpy_short {text : Text} {size : Nat} (short : text.length < size) : strlcpy text size = text :=
  List.take_of_length_le (Nat.le_sub_one_of_lt short)

theorem cStr_eq_iff (text : Text) : cStr text = text ↔ (0 : UInt8) ∉ text := by
  unfold cStr
  rw [List.takeWhile_eq_self_iff]
  constructor
  · intro all member
    simpa using all 0 member
  · intro none b member
    have other : b ≠ 0 := fun zero => none (zero ▸ member)
    simpa using other

theorem cStr_length (text : Text) : (cStr text).length ≤ text.length := (List.takeWhile_prefix _).length_le

section Separator

variable {front : Text} {separator : UInt8} (bare : separator ∉ front)
include bare

theorem bare_all : ∀ b ∈ front, (b != separator) = true := by
  intro b member
  have other : b ≠ separator := fun same => bare (same ▸ member)
  simpa using other

theorem takeWhile_bare : front.takeWhile (· != separator) = front := List.takeWhile_eq_self_iff.mpr (bare_all bare)

theorem takeWhile_separator (back : Text) : (front ++ separator::back).takeWhile (· != separator) = front := by
  rw [List.takeWhile_append_of_pos (bare_all bare),List.takeWhile_cons_of_neg (by simp),List.append_nil]

end Separator

theorem trimBy_nil (blank : UInt8 → Bool) : trimBy blank [] = [] := rfl

theorem tokens_take (delimiter : UInt8 → Bool) (text : Text) (pieces rest : List Text)
    (split : text.splitOnP delimiter = pieces ++ rest) (full : ∀ piece ∈ pieces, piece ≠ []) :
    ∃ more, tokens delimiter text = pieces ++ more := by
  refine ⟨rest.filter fun piece => !piece.isEmpty,?_⟩
  rw [tokens,split,List.filter_append]
  congr 1
  rw [List.filter_eq_self]
  intro piece member
  have nonempty := full piece member
  simpa using nonempty

end Bytes
