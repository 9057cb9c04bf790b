import Mathlib.Data.List.Basic

/-! Percent-encoding of byte strings. Every byte outside a set of kept ones is written
as `%` and two hexadecimal digits; what is kept must not hold the `%`. -/
namespace Percent

def digit (n : Nat) : UInt8 := if n < 10 then UInt8.ofNat (48 + n) else UInt8.ofNat (55 + n)

def digitValue (b : UInt8) : Option Nat :=
  if 48 ≤ b ∧ b ≤ 57 then some (b.toNat - 48)
  else if 65 ≤ b ∧ b ≤ 70 then some (b.toNat - 55)
  else if 97 ≤ b ∧ b ≤ 102 then some (b.toNat - 87)
  else none

def isUpperDigit (b : UInt8) : Bool := (48 ≤ b && b ≤ 57) || (65 ≤ b && b ≤ 70)

def escape (b : UInt8) : List UInt8 := [37,digit (b.toNat / 16),digit (b.toNat % 16)]

def encode (kept : UInt8 → Bool) (text : List UInt8) : List UInt8 :=
  text.flatMap fun b => if kept b then [b] else escape b

/-- A `%` without two digits behind it stands for itself. -/
def decode : List UInt8 → List UInt8
  | b::high::low::rest =>
    if b = 37 then
      match digitValue high,digitValue low with
      | some h,some l => UInt8.ofNat (h * 16 + l)::decode rest
      | _,_ => b::decode (high::low::rest)
    else b::decode (high::low::rest)
  | short => short

/-- The texts of kept bytes and escapes. -/
inductive Encoded (kept : UInt8 → Bool) : List UInt8 → Prop where
  | nil : Encoded kept []
  | plain {b : UInt8} {rest : List UInt8} (isKept : kept b = true) (more : Encoded kept rest) : Encoded kept (b::rest)
  | escape {high low : UInt8} {rest : List UInt8} (isHigh : isUpperDigit high = true) (isLow : isUpperDigit low = true)
      (more : Encoded kept rest) : Encoded kept (37::high::low::rest)

theorem digit_spec : ∀ n < 16, digitValue (digit n) = some n ∧ isUpperDigit (digit n) = true := by decide

theorem decode_plain {b : UInt8} (other : b ≠ 37) (rest : List UInt8) : decode (b::rest) = b::decode rest := by
  cases rest with
  | nil => rfl
  | cons high rest =>
    cases rest with
    | nil => rfl
    | cons low rest => rw [decode,if_neg other]

theorem decode_escape (b : UInt8) (rest : List UInt8) : decode (escape b ++ rest) = b::decode rest := by
  have small : b.toNat < 256 := b.toNat_lt
  have high := (digit_spec (b.toNat / 16) (by omega)).1
  have low := (digit_spec (b.toNat % 16) (by omega)).1
  show decode (37::digit (b.toNat / 16)::digit (b.toNat % 16)::rest) = _
  rw [decode,if_pos rfl,high,low]
  have whole : b.toNat / 16 * 16 + b.toNat % 16 = b.toNat := by omega
  show UInt8.ofNat (b.toNat / 16 * 16 + b.toNat % 16)::_ = _
  rw [whole,UInt8.ofNat_toNat]

variable {kept : UInt8 → Bool}

theorem encode_cons (b : UInt8) (rest : List UInt8) :
    encode kept (b::rest) = (if kept b then [b] else escape b) ++ encode kept rest := rfl

theorem encode_encoded (text : List UInt8) : Encoded kept (encode kept text) := by
  induction text with
  | nil => exact .nil
  | cons b rest ih =>
    rw [encode_cons]
    split
    · exact .plain (by assumption) ih
    · have small : b.toNat < 256 := b.toNat_lt
      exact .escape (digit_spec _ (by omega)).2 (digit_spec _ (by omega)).2 ih

theorem decode_encode (escapes : kept 37 = false) (text : List UInt8) : decode (encode kept text) = text := by
  induction text with
  | nil => rfl
  | cons b rest ih =>
    rw [encode_cons]
    split
    · rename_i isKept
      have other : b ≠ 37 := by
        rintro rfl
        rw [escapes] at isKept
        cases isKept
      show decode (b::encode kept rest) = _
      rw [decode_plain other,ih]
    · rw [decode_escape,ih]

theorem encode_injective (escapes : kept 37 = false) : Function.Injective (encode kept) :=
  Function.LeftInverse.injective (decode_encode escapes)

/-- A byte that is no digit, no `%` and not kept does not occur. -/
theorem Encoded.absent {b : UInt8} (unkept : kept b = false) (other : b ≠ 37) (noDigit : isUpperDigit b = false)
    {text : List UInt8} (encoded : Encoded kept text) : b ∉ text := by
  induction encoded with
  | nil => exact List.not_mem_nil
  | plain isKept _ ih =>
    intro member
    obtain rfl | later := List.mem_cons.mp member
    · rw [unkept] at isKept
      cases isKept
    · exact ih later
  | escape isHigh isLow _ ih =>
    intro member
    obtain rfl | member := List.mem_cons.mp member
    · exact other rfl
    obtain rfl | member := List.mem_cons.mp member
    · rw [noDigit] at isHigh
      cases isHigh
    obtain rfl | later := List.mem_cons.mp member
    · rw [noDigit] at isLow
      cases isLow
    · exact ih later

end Percent
