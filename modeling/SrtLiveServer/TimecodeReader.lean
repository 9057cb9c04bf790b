import SrtLiveServer.Bits
import SrtLiveServer.Timecode

/-! What the bit reader of the timecode scanner reads: the next bits of its buffer as
a number, and nothing outside the buffer. -/
namespace SrtLiveServer.Timecode
open Bytes Checked Bits

/-- The bits from the reader's position on. -/
def BitReader.rest (r : BitReader) : List Bool := (ofBytes r.buf).drop r.pos

def BitReader.advance (r : BitReader) (n : Nat) : BitReader := {r with pos := r.pos + n}

theorem BitReader.rest_length (r : BitReader) : r.rest.length = r.buf.length * 8 - r.pos := by
  rw [BitReader.rest,List.length_drop,ofBytes_length]

theorem BitReader.rest_advance (r : BitReader) (n : Nat) : (r.advance n).rest = r.rest.drop n := by
  rw [BitReader.rest,BitReader.rest,List.drop_drop]
  rfl

theorem BitReader.rest_cons {r : BitReader} (inside : r.pos < r.buf.length * 8) :
    ∃ b, readAt r.buf (r.pos / 8) = .ok b ∧
      r.rest = decide (b.toNat / 2 ^ (7 - r.pos % 8) % 2 = 1)::(r.advance 1).rest := by
  have here : r.pos / 8 < r.buf.length := by omega
  refine ⟨r.buf[r.pos / 8],readAt_eq here,?_⟩
  have within : r.pos < (ofBytes r.buf).length := by rw [ofBytes_length]; exact inside
  have bit := ofBytes_getElem? r.buf r.pos
  rw [bitAt,List.getElem?_eq_getElem here,List.getElem?_eq_getElem within] at bit
  rw [BitReader.rest,List.drop_eq_getElem_cons within,Option.some.inj bit]
  rfl

theorem brBits_run (n value : Nat) {r : BitReader} (inside : r.pos + n ≤ r.buf.length * 8) :
    (brBits n value).run r = .ok (value * 2 ^ n + ofBits (r.rest.take n),r.advance n) := by
  induction n generalizing value r with
  | zero => simp [brBits,ofBits,BitReader.advance]; rfl
  | succ n ih =>
    obtain ⟨b,read,split⟩ := BitReader.rest_cons (r := r) (by omega)
    have next : (r.advance 1).pos + n ≤ (r.advance 1).buf.length * 8 := by
      show r.pos + 1 + n ≤ r.buf.length * 8
      omega
    have bit : (decide (b.toNat / 2 ^ (7 - r.pos % 8) % 2 = 1)).toNat = b.toNat / 2 ^ (7 - r.pos % 8) % 2 := by
      rcases Nat.mod_two_eq_zero_or_one (b.toNat / 2 ^ (7 - r.pos % 8)) with zero | one
      · simp [zero]
      · simp [one]
    have taken : ((r.advance 1).rest.take n).length = n := by
      rw [List.length_take,BitReader.rest_length]
      omega
    have stepped : (brBits (n + 1) value).run r =
        (brBits n (value * 2 + b.toNat / 2 ^ (7 - r.pos % 8) % 2)).run (r.advance 1) := by
      rw [brBits]
      simp [read]
      rfl
    rw [stepped,ih _ next,split,List.take_succ_cons,ofBits_cons,taken,bit]
    congr 2
    · ring
    · simp [BitReader.advance]; omega

def BitReader.Failed (r : BitReader) : Prop := r.err = true

theorem brU_run {n : Nat} {r : BitReader} (width : 0 < n ∧ n ≤ 32) (fine : r.err = false)
    (inside : r.pos + n ≤ r.buf.length * 8) : (brU n).run r = .ok (ofBits (r.rest.take n),r.advance n) := by
  have fits : ¬ (n = 0 ∨ 32 < n ∨ r.buf.length * 8 < r.pos + n) := by omega
  have stepped : (brU n).run r = (brBits n 0).run r := by
    unfold brU
    simp [fine,fits]
  rw [stepped,brBits_run n 0 inside,Nat.zero_mul,Nat.zero_add]

theorem brU_failed {n : Nat} {r : BitReader} (failed : r.err = true) : (brU n).run r = .ok (0,r) := by
  unfold brU
  simp [failed]
  rfl

theorem brU_short {n : Nat} {r : BitReader} (fine : r.err = false)
    (short : n = 0 ∨ 32 < n ∨ r.buf.length * 8 < r.pos + n) : (brU n).run r = .ok (0,{r with err := true}) := by
  unfold brU
  simp [fine,short,setErr]
  rfl

theorem brU_yields (n : Nat) (r : BitReader) :
    Yields ((brU n).run r) fun result => (r.Failed → result.2.Failed) ∧ result.1 < 2 ^ n := by
  have positive : 0 < 2 ^ n := Nat.pow_pos (by decide)
  by_cases failed : r.err = true
  · exact ⟨_,brU_failed failed,id,positive⟩
  · have fine : r.err = false := by simpa using failed
    by_cases short : n = 0 ∨ 32 < n ∨ r.buf.length * 8 < r.pos + n
    · exact ⟨_,brU_short fine short,fun _ => rfl,positive⟩
    · refine ⟨_,brU_run (by omega) fine (by omega),id,?_⟩
      refine Nat.lt_of_lt_of_le (ofBits_lt _) (Nat.pow_le_pow_right (by decide) ?_)
      exact List.length_take_le n r.rest

theorem brU_meets (n : Nat) : Meets BitReader.Failed (brU n) fun value => value < 2 ^ n :=
  fun r => (brU_yields n r).imp fun _ ⟨kept,small⟩ => ⟨kept,.inr small⟩

theorem brU_always (n : Nat) : Always (brU n) fun value => value < 2 ^ n :=
  fun r => (brU_yields n r).imp fun _ met => met.2

section Fields

/-! Reads of a known field, with whatever follows it left to the next one. -/

variable {α β : Type}

/-- The program reads these bits and no more, and makes `a` of them. -/
def Reads (program : Read α) (bits : List Bool) (a : α) : Prop :=
  ∀ r more, r.err = false → r.rest = bits ++ more →
    ∃ r', program.run r = .ok (a,r') ∧ r'.err = false ∧ r'.rest = more

theorem Reads.pure (a : α) : Reads (pure a) [] a := fun r _ fine rest => ⟨r,rfl,fine,rest⟩

theorem Reads.bind {program : Read α} {next : α → Read β} {first second : List Bool} {a : α} {b : β}
    (reads : Reads program first a) (nextReads : Reads (next a) second b) : Reads (program >>= next) (first ++ second) b := by
  intro r more fine rest
  rw [List.append_assoc] at rest
  obtain ⟨r',ran,fine',rest'⟩ := reads r (second ++ more) fine rest
  obtain ⟨r'',ran',fine'',rest''⟩ := nextReads r' more fine' rest'
  refine ⟨r'',?_,fine'',rest''⟩
  rw [StateT.run_bind,ran,← ran']
  rfl

theorem Reads.next {program : Read α} {next : α → Read β} {first : List Bool} {later : List (List Bool)} {a : α} {b : β}
    (reads : Reads program first a) (nextReads : Reads (next a) later.flatten b) :
    Reads (program >>= next) (first::later).flatten b := reads.bind nextReads

theorem Reads.check {next : Bool → Read β} {bits : List Bool} {b : β} (nextReads : Reads (next false) bits b) :
    Reads (failed >>= next) bits b := by
  have fine : Reads failed [] false := fun r _ fine rest => ⟨r,by rw [← fine]; rfl,fine,rest⟩
  exact fine.bind nextReads

theorem Reads.brU {n : Nat} {bits : List Bool} (width : bits.length = n) (positive : 0 < n) (small : n ≤ 32) :
    Reads (brU n) bits (ofBits bits) := by
  intro r more fine rest
  have long := r.rest_length
  rw [rest,List.length_append,width] at long
  have inside : r.pos + n ≤ r.buf.length * 8 := by omega
  refine ⟨r.advance n,?_,fine,?_⟩
  · rw [brU_run ⟨positive,small⟩ fine inside,rest,← width,List.take_left]
  · rw [BitReader.rest_advance,rest,← width,List.drop_left]

theorem Reads.field {n value : Nat} (fits : value < 2 ^ n) (positive : 0 < n) (small : n ≤ 32) :
    Reads (Timecode.brU n) (toBits n value) value := by
  have reads := Reads.brU (toBits_length n value) positive small
  rw [ofBits_toBits_of_lt fits] at reads
  exact reads

theorem Reads.flag (bit : Bool) : Reads (Timecode.brU 1) [bit] bit.toNat := by
  have width : [bit].length = 1 := rfl
  have reads := Reads.brU width (by decide) (by decide)
  rw [ofBits_cons] at reads
  simpa [ofBits] using reads

theorem toNat_flag (bit : Bool) : decide (bit.toNat ≠ 0) = bit := by cases bit <;> rfl

theorem Reads.skip {field : Read α} {bits : List Bool} {a : α} (reads : Reads field bits a) : Reads (skip field) bits () := by
  have whole : Reads (Timecode.skip field) (bits ++ []) () := reads.bind (Reads.pure ())
  rw [List.append_nil] at whole
  exact whole

theorem Reads.brI {n : Nat} {bits : List Bool} (width : bits.length = n) (positive : 0 < n) (small : n ≤ 32) :
    ∃ value, Reads (brI n) bits value := by
  have whole : Reads (Timecode.brI n) (bits ++ []) _ := (Reads.brU width positive small).bind (Reads.check (Reads.pure _))
  rw [List.append_nil] at whole
  exact ⟨_,whole⟩

theorem Reads.skipIf_brI {n : Nat} {bits : List Bool} (width : bits.length = n) (small : n ≤ 32) :
    Reads (skipIf (0 < n) (Timecode.brI n)) bits () := by
  unfold skipIf
  by_cases positive : 0 < n
  · obtain ⟨value,reads⟩ := Reads.brI width positive small
    rw [if_pos positive]
    exact reads.skip
  · have none : bits = [] := List.eq_nil_of_length_eq_zero (by omega)
    rw [if_neg positive,none]
    exact Reads.pure ()

end Fields

end SrtLiveServer.Timecode
