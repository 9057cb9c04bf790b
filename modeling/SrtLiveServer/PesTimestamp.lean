import SrtLiveServer.TimecodeEncoding
import SrtLiveServer.TsPacket

/-! The two decoders of a PES time stamp: the one that paces the playout of a file, and
the one of the timecode scanner. -/
namespace SrtLiveServer.PesTimestamp
open Bytes Checked Timecode TsPacket

/-- The bits the field spells, most significant first: 3, 8, 7, 8 and 7 of them. -/
def fieldValue (b0 b1 b2 b3 b4 : UInt8) : Nat :=
  b0.toNat / 2 % 8 * 2 ^ 30 + b1.toNat * 2 ^ 22 + b2.toNat / 2 * 2 ^ 15 + b3.toNat * 2 ^ 7 + b4.toNat / 2

theorem high_toNat (b : UInt8) :
    (((b &&& 0x0E).toBitVec.setWidth 32 <<< 29).signExtend 64).toNat =
      b.toNat / 2 % 4 * 2 ^ 30 + if 2 ≤ b.toNat / 2 % 4 then 2 ^ 64 - 2 ^ 32 else 0 := by
  have table : ∀ n < 256, (((UInt8.ofNat n &&& 0x0E).toBitVec.setWidth 32 <<< 29).signExtend 64).toNat =
      n / 2 % 4 * 2 ^ 30 + if 2 ≤ n / 2 % 4 then 2 ^ 64 - 2 ^ 32 else 0 := by
    decide +kernel
  have here := table b.toNat b.toNat_lt
  rw [UInt8.ofNat_toNat] at here
  exact here

theorem middle_toNat (b1 b2 : UInt8) :
    ((b1.toBitVec.setWidth 64 <<< 8 ||| (b2.toBitVec.setWidth 64 >>> 1)) <<< 15 : BitVec 64).toNat =
      b1.toNat * 2 ^ 23 + b2.toNat / 2 * 2 ^ 15 := by
  have small : b1.toNat < 256 := b1.toNat_lt
  have small' : b2.toNat < 256 := b2.toNat_lt
  have joined : b1.toNat * 2 ^ 8 ||| b2.toNat / 2 = b1.toNat * 2 ^ 8 + b2.toNat / 2 := by
    rw [Nat.mul_comm,← Nat.two_pow_add_eq_or_of_lt (by omega)]
  simp only [BitVec.toNat_shiftLeft,BitVec.toNat_or,BitVec.toNat_ushiftRight,BitVec.toNat_setWidth,UInt8.toNat_toBitVec,
    Nat.shiftLeft_eq,Nat.shiftRight_eq_div_pow]
  rw [Nat.mod_eq_of_lt (by omega : b1.toNat < 2 ^ 64),Nat.mod_eq_of_lt (by omega : b1.toNat * 2 ^ 8 < 2 ^ 64),
    Nat.mod_eq_of_lt (by omega : b2.toNat < 2 ^ 64),Nat.pow_one,joined]
  omega

theorem low_toNat (b3 b4 : UInt8) :
    ((b3.toBitVec.setWidth 64 <<< 8 ||| b4.toBitVec.setWidth 64).sshiftRight 1 : BitVec 64).toNat =
      b3.toNat * 2 ^ 7 + b4.toNat / 2 := by
  have small : b3.toNat < 256 := b3.toNat_lt
  have small' : b4.toNat < 256 := b4.toNat_lt
  have joined : b3.toNat * 2 ^ 8 ||| b4.toNat = b3.toNat * 2 ^ 8 + b4.toNat := by
    rw [Nat.mul_comm,← Nat.two_pow_add_eq_or_of_lt (by omega)]
  have sum : (b3.toBitVec.setWidth 64 <<< 8 ||| b4.toBitVec.setWidth 64 : BitVec 64).toNat = b3.toNat * 2 ^ 8 + b4.toNat := by
    simp only [BitVec.toNat_shiftLeft,BitVec.toNat_or,BitVec.toNat_setWidth,UInt8.toNat_toBitVec,Nat.shiftLeft_eq]
    rw [Nat.mod_eq_of_lt (by omega : b3.toNat < 2 ^ 64),Nat.mod_eq_of_lt (by omega : b3.toNat * 2 ^ 8 < 2 ^ 64),
      Nat.mod_eq_of_lt (by omega : b4.toNat < 2 ^ 64),joined]
  have positive : (b3.toBitVec.setWidth 64 <<< 8 ||| b4.toBitVec.setWidth 64 : BitVec 64).msb = false := by
    rw [BitVec.msb_eq_false_iff_two_mul_lt,sum]
    omega
  rw [BitVec.sshiftRight_eq_of_msb_false positive,BitVec.toNat_ushiftRight,sum,Nat.shiftRight_eq_div_pow]
  omega

theorem toInt_eq_iff (x : BitVec 64) {n : Nat} (small : n < 2 ^ 63) : x.toInt = n ↔ x.toNat = n := by
  have bound := x.isLt
  rw [BitVec.toInt_eq_toNat_cond]
  split <;> omega

theorem or_eq_fieldValue_iff (b0 b1 b2 b3 b4 : UInt8) :
    (b0.toNat / 2 % 4 * 2 ^ 30 + (if 2 ≤ b0.toNat / 2 % 4 then 2 ^ 64 - 2 ^ 32 else 0)) |||
        (b1.toNat * 2 ^ 23 + b2.toNat / 2 * 2 ^ 15) ||| (b3.toNat * 2 ^ 7 + b4.toNat / 2) = fieldValue b0 b1 b2 b3 b4 ↔
      b0.toNat / 4 % 4 = 0 ∧ b1.toNat = 0 := by
  have small1 : b1.toNat < 256 := b1.toNat_lt
  have small2 : b2.toNat < 256 := b2.toNat_lt
  have small3 : b3.toNat < 256 := b3.toNat_lt
  have small4 : b4.toNat < 256 := b4.toNat_lt
  have lower : b1.toNat * 2 ^ 23 + b2.toNat / 2 * 2 ^ 15 ||| (b3.toNat * 2 ^ 7 + b4.toNat / 2) =
      b1.toNat * 2 ^ 23 + b2.toNat / 2 * 2 ^ 15 + (b3.toNat * 2 ^ 7 + b4.toNat / 2) := by
    have factor : b1.toNat * 2 ^ 23 + b2.toNat / 2 * 2 ^ 15 = 2 ^ 15 * (b1.toNat * 2 ^ 8 + b2.toNat / 2) := by omega
    rw [factor,← Nat.two_pow_add_eq_or_of_lt (by omega)]
  unfold fieldValue
  rw [Nat.or_assoc,lower]
  generalize b0.toNat = x0 at *
  generalize b1.toNat = x1 at *
  generalize b2.toNat = x2 at *
  generalize b3.toNat = x3 at *
  generalize b4.toNat = x4 at *
  constructor
  · intro same
    have high := congrArg (· / 2 ^ 31) same
    have low := congrArg (· % 2 ^ 30) same
    rw [Nat.or_div_two_pow] at high
    rw [Nat.or_mod_two_pow] at low
    have none : (x1 * 2 ^ 23 + x2 / 2 * 2 ^ 15 + (x3 * 2 ^ 7 + x4 / 2)) / 2 ^ 31 = 0 := by omega
    have none' : (x0 / 2 % 4 * 2 ^ 30 + if 2 ≤ x0 / 2 % 4 then 2 ^ 64 - 2 ^ 32 else 0) % 2 ^ 30 = 0 := by
      split <;> omega
    rw [none,Nat.or_zero] at high
    rw [none',Nat.zero_or] at low
    split at high <;> omega
  · rintro ⟨top,rfl⟩
    have bits : x0 / 2 % 4 = x0 / 2 % 8 ∧ x0 / 2 % 8 < 2 := by omega
    rw [if_neg (by omega),bits.1,Nat.add_zero,Nat.mul_comm _ (2 ^ 30),← Nat.two_pow_add_eq_or_of_lt (by omega)]
    omega

theorem mask_iff (b : UInt8) : b &&& 0x0C = 0 ↔ b.toNat / 4 % 4 = 0 := by
  have table : ∀ n < 256, UInt8.ofNat n &&& 0x0C = 0 ↔ n / 4 % 4 = 0 := by decide +kernel
  have here := table b.toNat b.toNat_lt
  rw [UInt8.ofNat_toNat] at here
  exact here

theorem readPts_field (b0 b1 b2 b3 b4 : UInt8) (rest : Text) :
    readPts (b0::b1::b2::b3::b4::rest) = .ok (fieldValue b0 b1 b2 b3 b4 : Int) := rfl

theorem ffParsePesPts_iff (b0 b1 b2 b3 b4 : UInt8) (rest : Text) :
    ffParsePesPts (b0::b1::b2::b3::b4::rest) = .ok (fieldValue b0 b1 b2 b3 b4 : Int) ↔ b0 &&& 0x0C = 0 ∧ b1 = 0 := by
  have small : fieldValue b0 b1 b2 b3 b4 < 2 ^ 63 := by
    have small1 : b1.toNat < 256 := b1.toNat_lt
    have small2 : b2.toNat < 256 := b2.toNat_lt
    have small3 : b3.toNat < 256 := b3.toNat_lt
    have small4 : b4.toNat < 256 := b4.toNat_lt
    unfold fieldValue
    omega
  have long : ¬ (b0::b1::b2::b3::b4::rest).length < 5 := by simp
  have whole : ffParsePesPts (b0::b1::b2::b3::b4::rest) = .ok (0 |||
      ((b0 &&& 0x0E).toBitVec.setWidth 32 <<< 29).signExtend 64 |||
      ((b1.toBitVec.setWidth 64 <<< 8 ||| (b2.toBitVec.setWidth 64 >>> 1)) <<< 15) |||
      (b3.toBitVec.setWidth 64 <<< 8 ||| b4.toBitVec.setWidth 64).sshiftRight 1 : BitVec 64).toInt := by
    unfold ffParsePesPts
    rw [if_neg long]
    rfl
  have zero : b1 = 0 ↔ b1.toNat = 0 := by rw [← UInt8.toNat_inj]; rfl
  rw [whole,Except.ok.injEq,toInt_eq_iff _ small,BitVec.toNat_or,BitVec.toNat_or,BitVec.toNat_or,high_toNat,middle_toNat,
    low_toNat,mask_iff,zero]
  show 0 ||| _ ||| _ ||| _ = _ ↔ _
  rw [Nat.zero_or]
  exact or_eq_fieldValue_iff b0 b1 b2 b3 b4

theorem ptsBytes_value (lead : Nat) {v : Nat} (small : v < 2 ^ 33) :
    ∃ b0 b1 b2 b3 b4, ptsBytes lead v = [b0,b1,b2,b3,b4] ∧ fieldValue b0 b1 b2 b3 b4 = v ∧
      (b0 &&& 0x0C = 0 ∧ b1 = 0 ↔ v / 2 ^ 31 = 0 ∧ v / 2 ^ 22 % 2 ^ 8 = 0) := by
  refine ⟨_,_,_,_,_,rfl,?_,?_⟩
  · unfold fieldValue
    simp only [UInt8.toNat_ofNat']
    omega
  · rw [mask_iff,← UInt8.toNat_inj]
    simp only [UInt8.toNat_ofNat']
    show _ ∧ _ = 0 ↔ _
    omega

/-- The decoder that paces a file reads what the field encodes, as the scanner's decoder
always does, if and only if bits 32, 31 and 29 to 22 of it are zero. -/
theorem pes_pts_agree_iff (b0 b1 b2 b3 b4 : UInt8) (rest : Text) (lead : Nat) :
    readPts (b0::b1::b2::b3::b4::rest) = .ok (fieldValue b0 b1 b2 b3 b4 : Int) ∧
    (ffParsePesPts (b0::b1::b2::b3::b4::rest) = readPts (b0::b1::b2::b3::b4::rest) ↔
      b0 &&& 0x0C = 0 ∧ b1 = 0) ∧
    ∀ v, v < 2 ^ 33 → readPts (ptsBytes lead v) = .ok (v : Int) ∧
      (ffParsePesPts (ptsBytes lead v) = .ok (v : Int) ↔ v / 2 ^ 31 = 0 ∧ v / 2 ^ 22 % 2 ^ 8 = 0) := by
  refine ⟨readPts_field b0 b1 b2 b3 b4 rest,?_,?_⟩
  · rw [readPts_field,ffParsePesPts_iff]
  · intro v small
    obtain ⟨b0,b1,b2,b3,b4,encoded,value,clear⟩ := ptsBytes_value lead small
    rw [encoded,readPts_field,← clear,← value,ffParsePesPts_iff]
    exact ⟨rfl,Iff.rfl⟩

theorem pes_pts_differ :
    ¬ ∀ (lead : Nat) (v : Nat), v < 2 ^ 33 →
      ffParsePesPts (ptsBytes lead v) = readPts (ptsBytes lead v) := by
  intro claim
  have same := claim 2 (2 ^ 22) (by decide)
  revert same
  decide +kernel

end SrtLiveServer.PesTimestamp
