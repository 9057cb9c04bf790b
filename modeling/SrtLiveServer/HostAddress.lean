import Mathlib.Data.BitVec

/-! Internet hosts and networks. A network is given by the first bits of its
addresses; a host with an IPv4 address can also be written as an IPv6 address,
the mapped form `::ffff:a.b.c.d`, and both spellings denote the same host. -/
namespace HostAddress

def InNet {w : Nat} (base : BitVec w) (len : Nat) (addr : BitVec w) : Prop := addr >>> (w - len) = base >>> (w - len)

instance {w : Nat} (base : BitVec w) (len : Nat) (addr : BitVec w) : Decidable (InNet base len addr) :=
  inferInstanceAs (Decidable (_ = _))

theorem and_mask_iff {w : Nat} (addr base : BitVec w) (len : Nat) :
    addr &&& (BitVec.allOnes w <<< (w - len)) = base &&& (BitVec.allOnes w <<< (w - len)) ↔ InNet base len addr := by
  unfold InNet
  constructor
  · intro same
    ext i inside
    have bit := congrArg (fun v => v.getLsbD (w - len + i)) same
    simp only [BitVec.getLsbD_and,BitVec.getLsbD_shiftLeft,BitVec.getLsbD_allOnes] at bit
    simp only [BitVec.getElem_ushiftRight]
    by_cases bound : w - len + i < w
    · have low : ¬ w - len + i < w - len := by omega
      simpa [bound,low,show i < w from inside] using bit
    · rw [BitVec.getLsbD_of_ge _ _ (by omega),BitVec.getLsbD_of_ge _ _ (by omega)]
  · intro same
    ext i inside
    by_cases low : i < w - len
    · simp [low]
    · have bit := congrArg (fun v => v.getLsbD (i - (w - len))) same
      simp only [BitVec.getLsbD_ushiftRight,show w - len + (i - (w - len)) = i from by omega] at bit
      rw [← BitVec.getLsbD_eq_getElem,← BitVec.getLsbD_eq_getElem,BitVec.getLsbD_and,BitVec.getLsbD_and,bit]

inductive Host where
  | v4 (addr : BitVec 32)
  | v6 (addr : BitVec 128)
deriving DecidableEq

/-- `IN6_IS_ADDR_V4MAPPED`: ten zero bytes, then two of ones. -/
def v4Mapped (addr : BitVec 128) : Bool := addr >>> 32 == 0xffff

def hostOf6 (addr : BitVec 128) : Host := if v4Mapped addr then .v4 (addr.setWidth 32) else .v6 addr

def Host.Internal : Host → Prop
  | .v4 a => InNet 0x7f000000 8 a ∨ InNet 0xa9fe0000 16 a ∨ InNet 0x0a000000 8 a ∨ InNet 0xac100000 12 a ∨
      InNet 0xc0a80000 16 a
  | .v6 a => a = 1 ∨ InNet (0xfe80 <<< 112) 10 a ∨ InNet (0xfc00 <<< 112) 7 a

instance : (host : Host) → Decidable host.Internal
  | .v4 _ => inferInstanceAs (Decidable (_ ∨ _))
  | .v6 _ => inferInstanceAs (Decidable (_ ∨ _))

theorem v4Mapped_shift {addr : BitVec 128} (mapped : v4Mapped addr = true) (n : Nat) :
    addr >>> (32 + n) = 0xffff#128 >>> n := by
  rw [BitVec.shiftRight_add,eq_of_beq mapped]
  rfl

/-- As an IPv6 address a mapped one lies in none of the internal IPv6 networks. -/
theorem v4Mapped_outside {addr : BitVec 128} (mapped : v4Mapped addr = true) : ¬ (Host.v6 addr).Internal := by
  rintro (loopback | linkLocal | uniqueLocal)
  · subst loopback
    revert mapped
    decide
  · have high := v4Mapped_shift mapped 86
    rw [linkLocal] at high
    revert high
    decide
  · have high := v4Mapped_shift mapped 89
    rw [uniqueLocal] at high
    revert high
    decide

end HostAddress
