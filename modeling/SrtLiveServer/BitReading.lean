import SrtLiveServer.TimecodeSps

/-! The bit reader of the timecode scanner on the machine's integers, and that it reads
what the reader over numbers of any size reads. -/
namespace SrtLiveServer.BitReading
open Bytes Checked Bits Timecode

/-- A position is an `int`, in bits. -/
structure Reader where
  buf : Text
  pos : Int
  err : Bool
deriving DecidableEq

abbrev Read (α : Type) : Type := StateT Reader (Except Fault) α

def failed : Read Bool := do return (← get).err

def setErr : Read Unit := modify fun r => {r with err := true}

/-- `r.buf[r.pos >> 3]`. -/
def byteAt (r : Reader) : Except Fault UInt8 :=
  if r.pos < 0 then .error .outOfBounds else readAt r.buf (r.pos / 8).toNat

def brBits : Nat → UInt32 → Read UInt32
  | 0,value => pure value
  | n + 1,value => do
    let r ← get
    let b ← byteAt r
    set {r with pos := int32 (r.pos + 1)}
    brBits n (value <<< 1 ||| ((b >>> UInt8.ofNat (7 - r.pos % 8).toNat) &&& 1).toUInt32)

def brU (n : Int) : Read UInt32 := do
  let r ← get
  if r.err = true then pure 0
  else if n ≤ 0 ∨ 32 < n ∨ int32 (r.buf.length * 8) < int32 (r.pos + n) then do
    setErr
    pure 0
  else brBits n.toNat 0

/-- The zeros in front of an Exp-Golomb value; `none` if there are too many. -/
def leadingZeros : Nat → Nat → Read (Option Nat)
  | 0,_ => throw .endless
  | bound + 1,zeros => do
    if (← failed) = true then pure (some zeros)
    else if (← brU 1) = 1 then pure (some zeros)
    else if 31 < zeros + 1 then do
      setErr
      pure none
    else leadingZeros bound (zeros + 1)

def brUe : Read UInt32 := do
  match ← leadingZeros 32 0 with
  | none => pure 0
  | some zeros =>
    if (← failed) = true ∨ zeros = 0 then pure 0
    else do
      let value ← brU zeros
      pure ((1 <<< UInt32.ofNat zeros) - 1 + value)

def brSe : Read Int := do
  let k ← brUe
  pure (if k &&& 1 ≠ 0 then int32 ((k + 1) / 2).toNat else int32 (-int32 (k / 2).toNat))

def brI (n : Int) : Read Int := do
  let v ← brU n
  if 32 ≤ n ∨ (← failed) = true then pure (int32 v.toNat)
  else if v &&& (1 <<< UInt32.ofNat (n - 1).toNat) ≠ 0 then
    pure (int32 (int32 v.toNat - int32 (1 <<< UInt32.ofNat n.toNat).toNat))
  else pure (int32 v.toNat)

/-- The reader over numbers that stands at the same bit. -/
structure Same (r : Reader) (s : BitReader) : Prop where
  buf : r.buf = s.buf
  pos : r.pos = s.pos
  err : r.err = s.err
  inside : s.pos ≤ s.buf.length * 8
  /-- Every position, and 32 bits behind it, is an `int`. -/
  room : s.buf.length * 8 + 32 < 2 ^ 31

theorem shift_in (value : UInt32) (b : UInt8) {s : Nat} (small : s < 8) :
    value <<< 1 ||| ((b >>> UInt8.ofNat s) &&& 1).toUInt32 = UInt32.ofNat (value.toNat * 2 + b.toNat / 2 ^ s % 2) := by
  have bit : ((b >>> UInt8.ofNat s) &&& 1).toUInt32.toNat = b.toNat / 2 ^ s % 2 := by
    rw [UInt8.toNat_toUInt32,UInt8.toNat_and,UInt8.toNat_shiftRight,UInt8.toNat_ofNat',Nat.shiftRight_eq_div_pow]
    have exponent : s % 2 ^ 8 % 8 = s := by omega
    rw [exponent]
    exact Nat.and_one_is_mod _
  have even : (value <<< 1).toNat = 2 ^ 1 * (value.toNat % 2 ^ 31) := by
    rw [UInt32.toNat_shiftLeft]
    show value.toNat <<< 1 % 2 ^ 32 = _
    rw [Nat.shiftLeft_eq]
    omega
  rw [← UInt32.toNat_inj,UInt32.toNat_or,bit,even,UInt32.toNat_ofNat',← Nat.two_pow_add_eq_or_of_lt (by omega)]
  omega

/-- A read of `n` bits sets the error. -/
def Short (r : Reader) (n : Int) : Prop := n ≤ 0 ∨ 32 < n ∨ int32 (r.buf.length * 8) < int32 (r.pos + n)

theorem brU_latched {n : Int} {r : Reader} (failed : r.err = true) : (brU n).run r = .ok (0,r) := by
  unfold brU
  simp [failed]
  rfl

theorem brU_cut {n : Int} {r : Reader} (fine : r.err = false) (short : Short r n) :
    (brU n).run r = .ok (0,{r with err := true}) := by
  unfold Short at short
  unfold brU
  simp [fine,short,setErr]
  rfl

theorem brU_bits {n : Int} {r : Reader} (fine : r.err = false) (long : ¬ Short r n) :
    (brU n).run r = (brBits n.toNat 0).run r := by
  unfold Short at long
  unfold brU
  simp [fine,long]

section Simulation

variable {α β γ δ : Type}

/-- Where the program over numbers ends, the program over machine integers ends at the same bit. -/
def Follows (program : Read α) (other : Timecode.Read β) (results : α → β → Prop) : Prop :=
  ∀ r s b s', Same r s → other.run s = .ok (b,s') →
    ∃ a r', program.run r = .ok (a,r') ∧ results a b ∧ Same r' s' ∧ s'.buf = s.buf

theorem Follows.pure {results : α → β → Prop} {a : α} {b : β} (related : results a b) :
    Follows (pure a) (pure b) results := by
  intro r s b' s' same ran
  cases ran
  exact ⟨a,r,rfl,related,same,rfl⟩

theorem Follows.bind {first : α → β → Prop} {results : γ → δ → Prop} {program : Read α} {other : Timecode.Read β}
    {next : α → Read γ} {otherNext : β → Timecode.Read δ} (follows : Follows program other first)
    (nextFollows : ∀ a b, first a b → Follows (next a) (otherNext b) results) :
    Follows (program >>= next) (other >>= otherNext) results := by
  intro r s d s'' same ran
  rw [StateT.run_bind] at ran
  obtain ⟨⟨b,s'⟩,firstRan,ran⟩ := bind_eq_ok ran
  obtain ⟨a,r',programRan,related,same',kept⟩ := follows r s b s' same firstRan
  obtain ⟨c,r'',nextRan,result,same'',kept'⟩ := nextFollows a b related r' s' d s'' same' ran
  refine ⟨c,r'',?_,result,same'',kept'.trans kept⟩
  rw [StateT.run_bind,programRan,← nextRan]
  rfl

theorem Follows.failed : Follows failed Timecode.failed Eq := by
  intro r s b s' same ran
  cases ran
  exact ⟨r.err,r,rfl,same.err,same,rfl⟩

theorem Follows.setErr : Follows setErr Timecode.setErr Eq := by
  intro r s b s' same ran
  cases ran
  exact ⟨(),{r with err := true},rfl,rfl,⟨same.buf,same.pos,rfl,same.inside,same.room⟩,rfl⟩

theorem Same.byteAt {r : Reader} {s : BitReader} (same : Same r s) : byteAt r = readAt s.buf (s.pos / 8) := by
  have started : ¬ (s.pos : Int) < 0 := by omega
  unfold BitReading.byteAt
  rw [same.buf,same.pos,if_neg started]
  rfl

theorem Same.advance {r : Reader} {s : BitReader} (same : Same r s) (inside : s.pos + 1 ≤ s.buf.length * 8) :
    Same {r with pos := int32 (r.pos + 1)} (s.advance 1) where
  buf := same.buf
  pos := by
    show int32 (r.pos + 1) = ((s.pos + 1 : Nat) : Int)
    have room := same.room
    rw [same.pos,int32_small (by omega) (by omega)]
    rfl
  err := same.err
  inside := inside
  room := same.room

theorem brBits_follows (n : Nat) {value : UInt32} {other : Nat} {r : Reader} {s : BitReader} (same : Same r s)
    (related : value = UInt32.ofNat other) (inside : s.pos + n ≤ s.buf.length * 8) :
    ∃ r', (brBits n value).run r = .ok (UInt32.ofNat (other * 2 ^ n + ofBits (s.rest.take n)),r') ∧
      Same r' (s.advance n) := by
  induction n generalizing value other r s with
  | zero =>
    refine ⟨r,?_,same⟩
    rw [related]
    simp [brBits,ofBits]
    rfl
  | succ n ih =>
    obtain ⟨b,read,split⟩ := BitReader.rest_cons (r := s) (by omega)
    have small : 7 - s.pos % 8 < 8 := by omega
    have shifted : (7 - r.pos % 8).toNat = 7 - s.pos % 8 := by
      rw [same.pos]
      omega
    have bit : value <<< 1 ||| ((b >>> UInt8.ofNat (7 - r.pos % 8).toNat) &&& 1).toUInt32 =
        UInt32.ofNat (other * 2 + b.toNat / 2 ^ (7 - s.pos % 8) % 2) := by
      rw [shifted,shift_in value b small,related,← UInt32.toNat_inj,UInt32.toNat_ofNat',UInt32.toNat_ofNat',UInt32.toNat_ofNat']
      omega
    obtain ⟨r',ran,same'⟩ := ih (same.advance (by omega)) bit (by show s.pos + 1 + n ≤ s.buf.length * 8; omega)
    refine ⟨r',?_,?_⟩
    · have stepped : (brBits (n + 1) value).run r = (brBits n (value <<< 1 |||
          ((b >>> UInt8.ofNat (7 - r.pos % 8).toNat) &&& 1).toUInt32)).run {r with pos := int32 (r.pos + 1)} := by
        rw [brBits]
        simp [same.byteAt,read]
        rfl
      have taken : ((s.advance 1).rest.take n).length = n := by
        rw [List.length_take,BitReader.rest_length]
        show min n (s.buf.length * 8 - (s.pos + 1)) = n
        omega
      have flag : (decide (b.toNat / 2 ^ (7 - s.pos % 8) % 2 = 1)).toNat = b.toNat / 2 ^ (7 - s.pos % 8) % 2 := by
        rcases Nat.mod_two_eq_zero_or_one (b.toNat / 2 ^ (7 - s.pos % 8)) with zero | one
        · simp [zero]
        · simp [one]
      rw [stepped,ran,split,List.take_succ_cons,ofBits_cons,taken,flag]
      congr 3
      ring
    · have moved : (s.advance 1).advance n = s.advance (n + 1) := by
        simp [BitReader.advance]
        omega
      rw [← moved]
      exact same'

/-- The result of a read of `n` bits. -/
def Value (n : Nat) (value : UInt32) (other : Nat) : Prop := value = UInt32.ofNat other ∧ other < 2 ^ n

theorem Same.short {r : Reader} {s : BitReader} (same : Same r s) (n : Nat) :
    Short r n ↔ n = 0 ∨ 32 < n ∨ s.buf.length * 8 < s.pos + n := by
  have room := same.room
  have inside := same.inside
  unfold Short
  by_cases width : 0 < n ∧ n ≤ 32
  · rw [same.buf,same.pos,int32_small (by omega) (by omega),int32_small (by omega) (by omega)]
    omega
  · omega

theorem brU_follows (n : Nat) : Follows (brU n) (Timecode.brU n) (Value n) := by
  intro r s b s' same ran
  by_cases failed : s.err = true
  · rw [brU_failed failed] at ran
    cases ran
    exact ⟨0,r,brU_latched (same.err.trans failed),⟨rfl,Nat.two_pow_pos n⟩,same,rfl⟩
  · have fine : s.err = false := by simpa using failed
    by_cases short : n = 0 ∨ 32 < n ∨ s.buf.length * 8 < s.pos + n
    · rw [brU_short fine short] at ran
      cases ran
      exact ⟨0,{r with err := true},brU_cut (same.err.trans fine) ((same.short n).mpr short),
        ⟨rfl,Nat.two_pow_pos n⟩,⟨same.buf,same.pos,rfl,same.inside,same.room⟩,rfl⟩
    · have fits : s.pos + n ≤ s.buf.length * 8 := by omega
      rw [brU_run (by omega) fine fits] at ran
      cases ran
      obtain ⟨r',read,same'⟩ := brBits_follows n same (show (0 : UInt32) = UInt32.ofNat 0 from rfl) fits
      rw [Nat.zero_mul,Nat.zero_add] at read
      refine ⟨_,r',?_,⟨rfl,?_⟩,same',rfl⟩
      · rw [brU_bits (same.err.trans fine) fun cut => short ((same.short n).mp cut)]
        exact read
      · refine Nat.lt_of_lt_of_le (ofBits_lt _) (Nat.pow_le_pow_right (by decide) ?_)
        exact List.length_take_le n s.rest

theorem Follows.ite {results : α → β → Prop} {condition other : Prop} [Decidable condition] [Decidable other]
    {first second : Read α} {otherFirst otherSecond : Timecode.Read β} (alike : condition ↔ other)
    (positive : other → Follows first otherFirst results) (negative : ¬ other → Follows second otherSecond results) :
    Follows (if condition then first else second) (if other then otherFirst else otherSecond) results := by
  by_cases met : other
  · rw [if_pos met,if_pos (alike.mpr met)]
    exact positive met
  · rw [if_neg met,if_neg fun met' => met (alike.mp met')]
    exact negative met

theorem value_one {a : UInt32} {b : Nat} (value : Value 1 a b) : a = 1 ↔ b = 1 := by
  obtain ⟨rfl,small⟩ := value
  have cases : b = 0 ∨ b = 1 := by omega
  rcases cases with rfl | rfl <;> decide

theorem leadingZeros_follows (bound zeros : Nat) (few : zeros ≤ 31) :
    Follows (leadingZeros bound zeros) (Timecode.leadingZeros bound zeros) fun a b => a = b ∧ ∀ z, b = some z → z ≤ 31 := by
  induction bound generalizing zeros with
  | zero =>
    intro r s b s' same ran
    cases ran
  | succ bound ih =>
    rw [leadingZeros,Timecode.leadingZeros]
    have found : ∀ z, some zeros = some z → z ≤ 31 := by
      intro z equal
      cases equal
      exact few
    refine Follows.failed.bind ?_
    rintro a _ rfl
    refine Follows.ite Iff.rfl (fun _ => .pure ⟨rfl,found⟩) fun _ => ?_
    refine (brU_follows 1).bind fun bit other value => ?_
    refine Follows.ite (value_one value) (fun _ => .pure ⟨rfl,found⟩) fun _ => ?_
    refine Follows.ite Iff.rfl (fun _ => ?_) fun more => ih (zeros + 1) (by omega)
    refine Follows.setErr.bind fun _ _ _ => .pure ⟨rfl,?_⟩
    intro z none
    cases none

theorem brUe_follows : Follows brUe Timecode.brUe fun a b => a = UInt32.ofNat b ∧ b < 2 ^ 32 - 1 := by
  unfold brUe Timecode.brUe
  refine (leadingZeros_follows 32 0 (by decide)).bind ?_
  rintro found _ ⟨rfl,few⟩
  cases found with
  | none => exact .pure ⟨rfl,by decide⟩
  | some zeros =>
    have limit := few zeros rfl
    refine Follows.failed.bind ?_
    rintro a _ rfl
    refine Follows.ite Iff.rfl (fun _ => .pure ⟨rfl,by decide⟩) fun _ => ?_
    refine (brU_follows zeros).bind ?_
    rintro _ value ⟨rfl,small⟩
    refine .pure ⟨?_,?_⟩
    · have table : ∀ z ≤ 31, (1 <<< UInt32.ofNat z) - 1 = UInt32.ofNat (2 ^ z - 1) := by decide
      rw [table zeros limit,UInt32.ofNat_add]
    · have most : 2 ^ zeros ≤ 2 ^ 31 := Nat.pow_le_pow_right (by decide) limit
      omega

theorem brSe_follows : Follows brSe Timecode.brSe Eq := by
  unfold brSe Timecode.brSe
  refine brUe_follows.bind ?_
  rintro _ k ⟨rfl,small⟩
  have odd : UInt32.ofNat k &&& 1 ≠ 0 ↔ k % 2 = 1 := by
    rw [Ne,← UInt32.toNat_inj,UInt32.toNat_and,UInt32.toNat_ofNat']
    show ¬ k % 2 ^ 32 &&& 1 = 0 ↔ _
    rw [Nat.and_one_is_mod]
    omega
  have up : ((UInt32.ofNat k + 1) / 2).toNat = (k + 1) / 2 := by
    rw [UInt32.toNat_div,UInt32.toNat_add,UInt32.toNat_ofNat']
    show (k % 2 ^ 32 + 1) % 2 ^ 32 / 2 = _
    omega
  have down : (UInt32.ofNat k / 2).toNat = k / 2 := by
    rw [UInt32.toNat_div,UInt32.toNat_ofNat']
    show k % 2 ^ 32 / 2 = _
    omega
  refine .pure ?_
  by_cases isOdd : k % 2 = 1
  · rw [if_pos (odd.mpr isOdd),if_pos isOdd,up]
    exact int32_small (by omega) (by omega)
  · rw [if_neg fun met => isOdd (odd.mp met),if_neg isOdd,down,@int32_small ((k / 2 : Nat) : Int) (by omega) (by omega)]
    exact int32_small (by omega) (by omega)

theorem Follows.fails {results : α → β → Prop} {program : Read α} {other : Timecode.Read β} (follows : Follows program other results)
    {buf : Text} {pos : Nat} (inside : pos ≤ buf.length * 8) (room : buf.length * 8 + 32 < 2 ^ 31)
    (fails : Yields (other.run ⟨buf,pos,false⟩) fun result => result.2.Failed) :
    Yields (program.run ⟨buf,pos,false⟩) fun result => result.2.err = true := by
  have same : Same ⟨buf,pos,false⟩ ⟨buf,pos,false⟩ := ⟨rfl,rfl,rfl,inside,room⟩
  obtain ⟨⟨b,s'⟩,ran,failed⟩ := fails
  obtain ⟨a,r',ran',_,same',_⟩ := follows _ _ b s' same ran
  exact ⟨_,ran',same'.err.trans failed⟩

/-- What reads a code over numbers reads it on the machine, wherever it stands, and moves on by its length. -/
theorem Follows.reads {results : α → β → Prop} {program : Read α} {other : Timecode.Read β} {code : List Bool} {b : β}
    (follows : Follows program other results) (reads : Reads other code b) {buf : Text} {before more : List Bool}
    (room : buf.length * 8 + 32 < 2 ^ 31) (bits : ofBytes buf = before ++ (code ++ more)) :
    ∃ a, program.run ⟨buf,before.length,false⟩ = .ok (a,⟨buf,(before.length + code.length : Nat),false⟩) ∧ results a b := by
  have total := congrArg List.length bits
  rw [ofBytes_length,List.length_append,List.length_append] at total
  have rest : BitReader.rest ⟨buf,before.length,false⟩ = code ++ more := by
    rw [BitReader.rest,bits,List.drop_left]
  obtain ⟨s',ran,fine,rest'⟩ := reads ⟨buf,before.length,false⟩ more rfl rest
  have started : before.length ≤ buf.length * 8 := by omega
  obtain ⟨a,r',programRan,related,same',kept⟩ := follows ⟨buf,before.length,false⟩ _ b s' ⟨rfl,rfl,rfl,started,room⟩ ran
  -- the bits that are left tell the position
  have left := BitReader.rest_length s'
  have inside := same'.inside
  rw [rest',kept] at left
  rw [kept] at inside
  have moved : s'.pos = before.length + code.length := by
    change more.length = buf.length * 8 - s'.pos at left
    change s'.pos ≤ buf.length * 8 at inside
    omega
  have final : r' = ⟨buf,(before.length + code.length : Nat),false⟩ := by
    rw [← moved,← same'.pos,← fine,← same'.err,← show s'.buf = buf from kept,← same'.buf]
  rw [final] at programRan
  exact ⟨a,programRan,related⟩

end Simulation

section Misses

theorem leadingZeros_zero (bound found : Nat) {s : BitReader} {later : List Bool} (fine : s.err = false)
    (rest : s.rest = false::later) :
    ∃ s', s'.err = false ∧ s'.rest = later ∧ (Timecode.leadingZeros (bound + 1) found).run s =
      (if 31 < found + 1 then do
        Timecode.setErr
        pure none
      else Timecode.leadingZeros bound (found + 1) : Timecode.Read (Option Nat)).run s' := by
  obtain ⟨s',ran,fine',rest'⟩ := Reads.flag false s later fine rest
  refine ⟨s',fine',rest',?_⟩
  rw [Timecode.leadingZeros,StateT.run_bind]
  show ((do
    if s.err = true then pure (some found)
    else if (← Timecode.brU 1) = 1 then pure (some found)
    else if 31 < found + 1 then do
      Timecode.setErr
      pure none
    else Timecode.leadingZeros bound (found + 1) : Timecode.Read (Option Nat))).run s = _
  rw [fine,if_neg Bool.false_ne_true,StateT.run_bind,ran]
  rfl

theorem leadingZeros_many (zeros : Nat) {found more : Nat} (total : found + zeros = 31) (enough : zeros ≤ more)
    {s : BitReader} {tail : List Bool} (fine : s.err = false) (rest : s.rest = List.replicate (zeros + 1) false ++ tail) :
    ∃ s', (Timecode.leadingZeros (more + 1) found).run s = .ok (none,s') ∧ s'.err = true := by
  induction zeros generalizing found more s with
  | zero =>
    obtain ⟨s',fine',rest',ran⟩ := leadingZeros_zero more found fine rest
    rw [if_pos (by omega)] at ran
    exact ⟨_,ran,rfl⟩
  | succ zeros ih =>
    obtain ⟨s',fine',rest',ran⟩ := leadingZeros_zero more found fine rest
    obtain ⟨more,rfl⟩ : ∃ n, more = n + 1 := ⟨more - 1,by omega⟩
    rw [if_neg (by omega)] at ran
    rw [ran]
    exact ih (by omega) (by omega) fine' rest'

theorem code_or_cut (rest : List Bool) :
    (∃ tail, rest = List.replicate 32 false ++ tail) ∨
    ∃ k ≤ 2 ^ 32 - 2, expGolomb k <+: rest ∨ ∃ missing, missing ≠ [] ∧ rest ++ missing = expGolomb k := by
  have code : ∀ (z : Nat) (bits : List Bool), z ≤ 31 → bits.length = z →
      2 ^ z - 1 + ofBits bits ≤ 2 ^ 32 - 2 ∧ expGolomb (2 ^ z - 1 + ofBits bits) = List.replicate z false ++ true::bits := by
    intro z bits few lengths
    have most : 2 ^ z ≤ 2 ^ 31 := Nat.pow_le_pow_right (by decide) few
    have below := ofBits_lt bits
    rw [lengths] at below
    exact ⟨by omega,expGolomb_spelled lengths⟩
  obtain ⟨z,tail,rfl,stop⟩ : ∃ z tail, rest = List.replicate z false ++ tail ∧ (tail = [] ∨ ∃ more, tail = true::more) := by
    induction rest with
    | nil => exact ⟨0,[],rfl,.inl rfl⟩
    | cons bit rest ih =>
      cases bit with
      | true => exact ⟨0,true::rest,rfl,.inr ⟨rest,rfl⟩⟩
      | false =>
        obtain ⟨z,tail,rfl,stop⟩ := ih
        exact ⟨z + 1,tail,rfl,stop⟩
  by_cases few : z ≤ 31
  · right
    obtain rfl | ⟨more,rfl⟩ := stop
    · obtain ⟨limit,spelled⟩ := code z (List.replicate z false) few List.length_replicate
      refine ⟨_,limit,.inr ⟨true::List.replicate z false,List.cons_ne_nil _ _,?_⟩⟩
      rw [spelled,List.append_nil]
    · by_cases long : z ≤ more.length
      · obtain ⟨limit,spelled⟩ := code z (more.take z) few (List.length_take_of_le long)
        refine ⟨_,limit,.inl ⟨more.drop z,?_⟩⟩
        rw [spelled,List.append_assoc,List.cons_append,List.take_append_drop]
      · have padded : (more ++ List.replicate (z - more.length) false).length = z := by
          rw [List.length_append,List.length_replicate]
          omega
        obtain ⟨limit,spelled⟩ := code z _ few padded
        refine ⟨_,limit,.inr ⟨List.replicate (z - more.length) false,?_,?_⟩⟩
        · intro none
          have gone := congrArg List.length none
          rw [List.length_replicate,List.length_nil] at gone
          omega
        · rw [spelled,List.append_assoc,List.cons_append]
  · left
    refine ⟨List.replicate (z - 32) false ++ tail,?_⟩
    have split : z = 32 + (z - 32) := by omega
    rw [← List.append_assoc,← List.replicate_add,← split]

theorem brUe_misses {s : BitReader} (fine : s.err = false) (none : ∀ k ≤ 2 ^ 32 - 2, ¬ expGolomb k <+: s.rest) :
    Yields (Timecode.brUe.run s) fun result => result.2.Failed := by
  obtain ⟨tail,many⟩ | ⟨k,limit,whole | ⟨missing,some,cut⟩⟩ := code_or_cut s.rest
  · obtain ⟨s',ran,failed⟩ := @leadingZeros_many 31 0 31 rfl (Nat.le_refl _) s tail fine many
    refine ⟨(0,s'),?_,failed⟩
    unfold Timecode.brUe
    rw [StateT.run_bind,ran]
    rfl
  · exact absurd whole (none k limit)
  · exact (brUe_parses ⟨k,by omega⟩).starves s missing fine some cut

theorem brSe_misses {s : BitReader} (fine : s.err = false)
    (none : ∀ v : Int, -2 ^ 31 < v → v < 2 ^ 31 → ¬ expGolomb (signedCode v) <+: s.rest) :
    Yields (Timecode.brSe.run s) fun result => result.2.Failed := by
  have unsigned : ∀ k ≤ 2 ^ 32 - 2, ¬ expGolomb k <+: s.rest := by
    intro k limit whole
    have missed := none (if k % 2 = 1 then (((k + 1) / 2 : Nat) : Int) else -((k / 2 : Nat) : Int))
      (by split <;> omega) (by split <;> omega)
    rw [signedCode_surjective] at missed
    exact missed whole
  obtain ⟨⟨k,s'⟩,ran,failed⟩ := brUe_misses fine unsigned
  refine ⟨(if k % 2 = 1 then (((k + 1) / 2 : Nat) : Int) else -((k / 2 : Nat) : Int),s'),?_,failed⟩
  unfold Timecode.brSe
  rw [StateT.run_bind,ran]
  rfl

end Misses

section Latch

variable {r : Reader} (latched : r.err = true)
include latched

theorem brUe_latched : brUe.run r = .ok (0,r) := by
  have zeros : (leadingZeros 32 0).run r = .ok (some 0,r) := by
    rw [leadingZeros,StateT.run_bind]
    show (StateT.run (if r.err = true then pure (some 0) else _ : Read (Option Nat)) r) = _
    rw [if_pos latched]
    rfl
  unfold brUe
  rw [StateT.run_bind,zeros]
  show (StateT.run (if r.err = true ∨ 0 = 0 then pure 0 else _ : Read UInt32) r) = _
  rw [if_pos (Or.inl latched)]
  rfl

theorem brSe_latched : brSe.run r = .ok (0,r) := by
  have value : (if (0 : UInt32) &&& 1 ≠ 0 then int32 (((0 : UInt32) + 1) / 2).toNat
      else int32 (-int32 ((0 : UInt32) / 2).toNat)) = 0 := by
    decide
  unfold brSe
  rw [StateT.run_bind,brUe_latched latched,ok_bind,value]
  rfl

theorem brI_latched (n : Int) : (brI n).run r = .ok (0,r) := by
  have value : int32 ((0 : UInt32).toNat : Int) = 0 := by decide
  unfold brI
  rw [StateT.run_bind,brU_latched latched,ok_bind,StateT.run_bind]
  show StateT.run (if 32 ≤ n ∨ r.err = true then pure (int32 ((0 : UInt32).toNat : Int)) else _ : Read Int) r = _
  rw [if_pos (Or.inr latched),value]
  rfl

end Latch

section Stops

variable {α β : Type}

/-- No loop of the program runs on. -/
def Stops (program : Read α) : Prop := ∀ r, program.run r ≠ .error .endless

theorem Stops.pure (a : α) : Stops (pure a) := fun _ ran => nomatch ran

theorem Stops.bind {program : Read α} {next : α → Read β} (stops : Stops program) (nextStops : ∀ a, Stops (next a)) :
    Stops (program >>= next) := by
  intro r ran
  rw [StateT.run_bind] at ran
  cases first : program.run r with
  | error fault =>
    rw [first] at ran
    cases ran
    exact stops r first
  | ok result =>
    rw [first] at ran
    exact nextStops result.1 result.2 ran

theorem Stops.ite {condition : Prop} [Decidable condition] {first second : Read α} (positive : Stops first)
    (negative : Stops second) : Stops (if condition then first else second) := by
  split
  · exact positive
  · exact negative

theorem byteAt_stops (r : Reader) : byteAt r ≠ .error .endless := by
  unfold byteAt readAt
  split
  · exact fun ran => nomatch ran
  · split <;> exact fun ran => nomatch ran

theorem brBits_stops (n : Nat) (value : UInt32) : Stops (brBits n value) := by
  induction n generalizing value with
  | zero => exact .pure value
  | succ n ih =>
    intro r ran
    rw [brBits] at ran
    cases read : byteAt r with
    | error fault =>
      simp [read] at ran
      cases ran
      exact byteAt_stops r read
    | ok b =>
      simp [read] at ran
      exact ih _ _ ran

theorem brU_stops (n : Int) : Stops (brU n) := by
  intro r ran
  by_cases latched : r.err = true
  · rw [brU_latched latched] at ran
    cases ran
  · have fine : r.err = false := by simpa using latched
    by_cases short : Short r n
    · rw [brU_cut fine short] at ran
      cases ran
    · rw [brU_bits fine short] at ran
      exact brBits_stops _ _ r ran

/-- The bound covers the 32 zeros after which the loop gives up. -/
theorem leadingZeros_stops (bound zeros : Nat) (few : zeros ≤ 31) (enough : 32 ≤ bound + zeros) :
    Stops (leadingZeros bound zeros) := by
  induction bound generalizing zeros with
  | zero => omega
  | succ bound ih =>
    have fails : Stops failed := fun _ ran => nomatch ran
    have sets : Stops setErr := fun _ ran => nomatch ran
    rw [leadingZeros]
    refine fails.bind fun _ => .ite (.pure _) ?_
    refine (brU_stops 1).bind fun _ => .ite (.pure _) ?_
    by_cases many : 31 < zeros + 1
    · rw [if_pos many]
      exact sets.bind fun _ => .pure _
    · rw [if_neg many]
      exact ih (zeros + 1) (by omega) (by omega)

theorem brUe_stops : Stops brUe := by
  have fails : Stops failed := fun _ ran => nomatch ran
  unfold brUe
  refine (leadingZeros_stops 32 0 (by decide) (by decide)).bind fun found => ?_
  cases found with
  | none => exact .pure _
  | some zeros => exact fails.bind fun _ => .ite (.pure _) ((brU_stops zeros).bind fun _ => .pure _)

end Stops

/-- What the reads make of a buffer, at every bit of it. -/
structure ReadsBack (buf : Text) : Prop where
  u : ∀ (before more : List Bool) (n value : Nat), 0 < n → n ≤ 32 → value < 2 ^ n →
    ofBytes buf = before ++ (toBits n value ++ more) →
    (brU n).run ⟨buf,before.length,false⟩ = .ok (UInt32.ofNat value,⟨buf,(before.length + n : Nat),false⟩)
  ue : ∀ (before more : List Bool) (k : Nat), k ≤ 2 ^ 32 - 2 → ofBytes buf = before ++ (expGolomb k ++ more) →
    brUe.run ⟨buf,before.length,false⟩ =
      .ok (UInt32.ofNat k,⟨buf,(before.length + (expGolomb k).length : Nat),false⟩)
  se : ∀ (before more : List Bool) (v : Int), -2 ^ 31 < v → v < 2 ^ 31 →
    ofBytes buf = before ++ (expGolomb (signedCode v) ++ more) →
    brSe.run ⟨buf,before.length,false⟩ =
      .ok (v,⟨buf,(before.length + (expGolomb (signedCode v)).length : Nat),false⟩)
  uShort : ∀ pos n : Nat, pos ≤ buf.length * 8 → 0 < n → n ≤ 32 → buf.length * 8 < pos + n →
    (brU n).run ⟨buf,pos,false⟩ = .ok (0,⟨buf,pos,true⟩)
  ueShort : ∀ pos : Nat, pos ≤ buf.length * 8 → (∀ k ≤ 2 ^ 32 - 2, ¬ expGolomb k <+: (ofBytes buf).drop pos) →
    Yields (brUe.run ⟨buf,pos,false⟩) fun result => result.2.err = true
  seShort : ∀ pos : Nat, pos ≤ buf.length * 8 →
    (∀ v : Int, -2 ^ 31 < v → v < 2 ^ 31 → ¬ expGolomb (signedCode v) <+: (ofBytes buf).drop pos) →
    Yields (brSe.run ⟨buf,pos,false⟩) fun result => result.2.err = true
  ends : ∀ (pos : Nat) (err : Bool), pos ≤ buf.length * 8 → Yields (brUe.run ⟨buf,pos,err⟩) fun _ => True

theorem readsBack {buf : Text} (room : buf.length * 8 + 32 < 2 ^ 31) : ReadsBack buf where
  u := by
    intro before more n value positive small fits bits
    obtain ⟨a,ran,rfl,_⟩ := (brU_follows n).reads (Reads.field fits positive small) room bits
    rw [toBits_length] at ran
    exact ran
  ue := by
    intro before more k limit bits
    obtain ⟨a,ran,rfl,_⟩ := brUe_follows.reads (brUe_parses ⟨k,by omega⟩).reads room bits
    exact ran
  se := by
    intro before more v low high bits
    obtain ⟨a,ran,rfl⟩ := brSe_follows.reads (brSe_parses low high).reads room bits
    exact ran
  uShort := by
    intro pos n inside positive small cut
    have same : Same ⟨buf,pos,false⟩ ⟨buf,pos,false⟩ := ⟨rfl,rfl,rfl,inside,room⟩
    exact brU_cut rfl ((same.short n).mpr (Or.inr (Or.inr cut)))
  ueShort := fun pos inside none => brUe_follows.fails inside room (@brUe_misses ⟨buf,pos,false⟩ rfl none)
  seShort := fun pos inside none => brSe_follows.fails inside room (@brSe_misses ⟨buf,pos,false⟩ rfl none)
  ends := by
    intro pos err inside
    have same : Same ⟨buf,pos,err⟩ ⟨buf,pos,err⟩ := ⟨rfl,rfl,rfl,inside,room⟩
    have ends : Ends BitReader.Failed Timecode.brUe := inferInstance
    obtain ⟨⟨b,s'⟩,ran,_⟩ := ends.ends ⟨buf,pos,err⟩
    obtain ⟨a,r',ran',_⟩ := brUe_follows _ _ b s' same ran
    exact ⟨_,ran',trivial⟩

/-- Fields and Exp-Golomb codes are read back, and the reader moves on by their length;
where none fits the error is set, and from then on every read gives zero and stays. -/
theorem bit_reader_reads_back (buf : Text) (room : buf.length * 8 + 32 < 2 ^ 31) :
    ReadsBack buf ∧
    (∀ r : Reader, r.err = true → (∀ n, (brU n).run r = .ok (0,r)) ∧ brUe.run r = .ok (0,r) ∧
      brSe.run r = .ok (0,r) ∧ ∀ n, (brI n).run r = .ok (0,r)) ∧
    ∀ r : Reader, brUe.run r ≠ .error .endless := by
  refine ⟨readsBack room,fun r latched => ?_,brUe_stops⟩
  exact ⟨fun n => brU_latched latched,brUe_latched latched,brSe_latched latched,brI_latched latched⟩

theorem bit_reader_reads_back_byte :
    (brU 8).run ⟨[0x47],0,false⟩ = .ok (0x47,⟨[0x47],8,false⟩) :=
  (bit_reader_reads_back [0x47] (by decide)).1.u [] [] 8 0x47 (by decide) (by decide) (by decide) (by decide)

end SrtLiveServer.BitReading
