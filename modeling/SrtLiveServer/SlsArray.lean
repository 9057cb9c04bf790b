import SrtLiveServer.Circular
import SrtLiveServer.Common
import SrtLiveServer.Timecode
import SrtLiveServer.Transition

/-! `CSLSArray`: the growing ring buffer behind the playout of files, against a queue of
bytes. A cell that was never written to is `none`. -/
namespace SrtLiveServer.SlsArray
open Bytes Circular Transition

inductive Fault where
  | outOfBounds
  /-- `new` throws on a negative length. -/
  | badAlloc
deriving DecidableEq

def defaultMaxDataSize : Int := 4096

abbrev Cells : Type := List (Option UInt8)

structure SLSArray where
  arrayData : Cells
  dataCount : Int
  writePos : Int
  readPos : Int
deriving DecidableEq

/-- `m_nDataSize`. -/
def SLSArray.dataSize (s : SLSArray) : Int := s.arrayData.length

def fresh (n : Int) : Cells := List.replicate n.toNat none

def SLSArray.init : SLSArray := ⟨fresh defaultMaxDataSize,0,0,0⟩

/-- `memcpy` out of an array; a negative length is a huge one. -/
def copyOut (array : Cells) (pos len : Int) : Except Fault Cells :=
  if 0 ≤ pos ∧ 0 ≤ len ∧ pos + len ≤ array.length then pure (slice array pos.toNat len.toNat) else .error .outOfBounds

def copyIn (array : Cells) (pos : Int) (data : Cells) : Except Fault Cells :=
  if 0 ≤ pos ∧ pos + data.length ≤ array.length then pure (splice array pos.toNat data) else .error .outOfBounds

def SLSArray.setSize (n : Int) : Except Fault SLSArray := if n < 0 then .error .badAlloc else pure ⟨fresh n,0,0,0⟩

def SLSArray.clear (s : SLSArray) : SLSArray := {s with dataCount := 0,writePos := 0,readPos := 0}

/-- The bytes that are copied, and the read position behind them. -/
def copyReady (s : SLSArray) (copyLen : Int) : Except Fault (Cells × Int) :=
  if s.readPos < s.writePos ∨ copyLen ≤ s.dataSize - s.readPos then do
    let bytes ← copyOut s.arrayData s.readPos copyLen
    pure (bytes,s.readPos + copyLen)
  else do
    let first ← copyOut s.arrayData s.readPos (s.dataSize - s.readPos)
    let second ← copyOut s.arrayData 0 (copyLen - (s.dataSize - s.readPos))
    pure (first ++ second,copyLen - (s.dataSize - s.readPos))

def SLSArray.getInline (s : SLSArray) (size : Int) : Except Fault (SLSArray × Cells) :=
  if s.dataCount = 0 then pure (s,[])
  else do
    let readyLen := if s.readPos < s.writePos then s.writePos - s.readPos else s.dataSize - s.readPos + s.writePos
    let copyLen := if readyLen ≤ size then readyLen else size
    let (bytes,readPos) ← copyReady s copyLen
    pure ({s with
      dataCount := s.dataCount - copyLen
      readPos := if s.dataSize ≤ readPos then 0 else readPos},bytes)

def SLSArray.get (s : SLSArray) (size : Int) : Except Fault (SLSArray × Cells) := s.getInline size

/-- The data does not fit what is left of the array. -/
def SLSArray.Expands (s : SLSArray) (data : Text) : Prop := s.dataSize - s.dataCount < data.length

instance decidableExpands (s : SLSArray) (data : Text) : Decidable (s.Expands data) := inferInstanceAs (Decidable (_ < _))

def SLSArray.extend (s : SLSArray) (data : Text) : Except Fault SLSArray :=
  let extLen := Timecode.int32 (s.dataSize + if (data.length : Int) ≤ defaultMaxDataSize then defaultMaxDataSize else data.length)
  if extLen < 0 then .error .badAlloc
  else do
    let (_,bytes) ← s.getInline s.dataCount
    let extData ← copyIn (fresh extLen) 0 bytes
    let extData ← copyIn extData bytes.length (data.map some)
    pure ⟨extData,bytes.length + data.length,0,0⟩

/-- The array with the data copied in, and the write position behind it. -/
def copyData (s : SLSArray) (data : Text) : Except Fault (Cells × Int) :=
  if (data.length : Int) ≤ s.dataSize - s.writePos then do
    let arrayData ← copyIn s.arrayData s.writePos (data.map some)
    pure (arrayData,s.writePos + data.length)
  else do
    let firstLen := s.dataSize - s.writePos
    let arrayData ← copyIn s.arrayData s.writePos ((data.take firstLen.toNat).map some)
    let arrayData ← copyIn arrayData 0 ((data.drop firstLen.toNat).map some)
    pure (arrayData,data.length - firstLen)

def SLSArray.put (s : SLSArray) (data : Text) : Except Fault (SLSArray × Int) :=
  if data.length = 0 then pure (s,slsError)
  else if s.Expands data then do
    let s ← s.extend data
    pure (s,data.length)
  else do
    let (arrayData,writePos) ← copyData s data
    pure ({s with
      arrayData := arrayData
      writePos := if writePos = s.dataSize then 0 else writePos
      dataCount := s.dataCount + data.length},data.length)

/-- A call from outside. -/
inductive Op where
  | setSize (n : Int) (isInt : n < 2 ^ 31)
  | clear
  | put (data : Text) (isInt : data.length < 2 ^ 31)
  | get (size : Int)

/-- The array, with the bytes put into it and those it returned since it was last emptied. -/
structure State where
  array : SLSArray
  puts : Text
  gets : Cells

def State.init : State := ⟨.init,[],[]⟩

/-- A `put` that throws leaves the array alone. -/
def queue : Machine State Op where
  step s op :=
    match op with
    | .setSize n _ => (SLSArray.setSize n).toOption.map fun array => ⟨array,[],[]⟩
    | .clear => some ⟨s.array.clear,[],[]⟩
    | .put data _ =>
      match s.array.put data with
      | .ok (array,_) => some {s with array := array,puts := s.puts ++ data}
      | .error .badAlloc => some s
      | .error .outOfBounds => none
    | .get size => (s.array.get size).toOption.map fun r => {s with array := r.1,gets := s.gets ++ r.2}

/-- The write position is the one behind the last byte. -/
def SLSArray.Placed (s : SLSArray) : Prop :=
  s.writePos = if s.readPos + s.dataCount < s.dataSize then s.readPos + s.dataCount else s.readPos + s.dataCount - s.dataSize

instance decidablePlaced (s : SLSArray) : Decidable s.Placed := inferInstanceAs (Decidable (_ = _))

/-- The calls that do not meet a misplaced write position. -/
def Safe (s : State) : Op → Prop
  | .setSize n _ => 0 ≤ n
  | .clear => True
  | .put data _ => s.array.Placed ∨ s.array.Expands data ∨ data = []
  | .get size => 0 ≤ size ∧ (s.array.Placed ∨ size ≤ s.array.dataCount ∨ s.array.dataCount = 0)

instance decidableSafe (s : State) : (op : Op) → Decidable (Safe s op)
  | .setSize n _ => inferInstanceAs (Decidable (0 ≤ n))
  | .clear => .isTrue trivial
  | .put data _ => inferInstanceAs (Decidable (s.array.Placed ∨ s.array.Expands data ∨ data = []))
  | .get size => inferInstanceAs (Decidable (0 ≤ size ∧ (s.array.Placed ∨ size ≤ s.array.dataCount ∨ s.array.dataCount = 0)))

/-- An array after an expansion that it does not fill: the bytes stand in line, and the
write position is in front of them. -/
structure SLSArray.Gapped (s : SLSArray) : Prop where
  write : s.writePos = 0
  room : s.readPos + s.dataCount < s.dataSize
  used : 0 < s.readPos + s.dataCount

structure Holds (s : SLSArray) (q : Text) : Prop where
  count : s.dataCount = q.length
  started : 0 ≤ s.readPos
  inside : s.readPos < s.dataSize ∨ s.readPos = 0 ∧ s.dataSize = 0
  carries : Carries s.arrayData s.readPos.toNat (q.map some)
  isInt : s.dataSize < 2 ^ 31
  written : s.Placed ∨ s.Gapped

theorem Holds.fits {s : SLSArray} {q : Text} (holds : Holds s q) : (q.length : Int) ≤ s.dataSize := by
  have fits := holds.carries.1
  rw [List.length_map] at fits
  unfold SLSArray.dataSize
  omega

theorem copyOut_slice {array : Cells} {pos len : Nat} (inside : pos + len ≤ array.length) :
    copyOut array pos len = .ok (slice array pos len) := by
  have bounds : (0 : Int) ≤ pos ∧ (0 : Int) ≤ len ∧ (pos : Int) + len ≤ array.length := by omega
  unfold copyOut
  rw [if_pos bounds]
  rfl

theorem copyIn_splice {array data : Cells} {pos : Nat} (inside : pos + data.length ≤ array.length) :
    copyIn array pos data = .ok (splice array pos data) := by
  have bounds : (0 : Int) ≤ pos ∧ (pos : Int) + data.length ≤ array.length := by omega
  unfold copyIn
  rw [if_pos bounds]
  rfl

theorem copyReady_read {s : SLSArray} {r k : Nat} (position : s.readPos = r) (inside : r < s.arrayData.length)
    (few : k ≤ s.arrayData.length) (inLine : s.readPos < s.writePos → r + k ≤ s.arrayData.length) :
    copyReady s k = .ok (Circular.read s.arrayData r k,
      if r + k ≤ s.arrayData.length then (r + k : Nat) else (r + k - s.arrayData.length : Nat)) := by
  unfold copyReady SLSArray.dataSize Circular.read
  rw [position] at inLine ⊢
  by_cases straight : r + k ≤ s.arrayData.length
  · rw [if_pos (by omega),if_pos (by omega),if_pos straight,copyOut_slice straight]
    rfl
  · have first : (s.arrayData.length : Int) - r = (s.arrayData.length - r : Nat) := by omega
    have second : (k : Int) - (s.arrayData.length - r : Nat) = (k - (s.arrayData.length - r) : Nat) := by omega
    have rest : k - (s.arrayData.length - r) = r + k - s.arrayData.length := by omega
    have whole := @copyOut_slice s.arrayData 0 (k - (s.arrayData.length - r)) (by omega)
    rw [if_neg (by omega),if_neg (by omega),if_neg straight,first,copyOut_slice (by omega),second,rest]
    rw [rest] at whole
    show (copyOut s.arrayData ((0 : Nat) : Int) _ >>= _) = _
    rw [whole]
    rfl

theorem Holds.nonempty {s : SLSArray} {q : Text} (holds : Holds s q) (used : 0 < q.length) :
    s.readPos.toNat < s.arrayData.length := by
  have fits := holds.fits
  have inside := holds.inside
  have started := holds.started
  unfold SLSArray.dataSize at fits inside
  omega

theorem Holds.ready {s : SLSArray} {q : Text} (holds : Holds s q) (used : 0 < q.length) {size : Nat}
    (known : s.Placed ∨ size ≤ q.length) :
    (if (if s.readPos < s.writePos then s.writePos - s.readPos else s.dataSize - s.readPos + s.writePos) ≤ (size : Int)
      then (if s.readPos < s.writePos then s.writePos - s.readPos else s.dataSize - s.readPos + s.writePos)
      else (size : Int)) = (min size q.length : Nat) := by
  have count := holds.count
  have fits := holds.fits
  have started := holds.started
  have inside := holds.nonempty used
  unfold SLSArray.dataSize at *
  obtain placed | gapped := holds.written
  · unfold SLSArray.Placed SLSArray.dataSize at placed
    split at placed <;> split <;> split <;> omega
  · obtain ⟨front,room,_⟩ := gapped
    unfold SLSArray.dataSize at room
    obtain placed | few := known
    · unfold SLSArray.Placed SLSArray.dataSize at placed
      split at placed <;> split <;> split <;> omega
    · split <;> split <;> omega

/-- The array after `k` bytes of it were read. -/
def SLSArray.after (s : SLSArray) (k : Nat) : SLSArray :=
  {s with dataCount := s.dataCount - k,readPos := ((s.readPos.toNat + k) % s.arrayData.length : Nat)}

theorem wrapped {r k n : Nat} (start : r < n) (few : k ≤ n) :
    (r + k) % n = if r + k < n then r + k else r + k - n := by
  split
  · exact Nat.mod_eq_of_lt (by assumption)
  · rw [Nat.mod_eq_sub_mod (by omega),Nat.mod_eq_of_lt (by omega)]

theorem Holds.after_placed {s : SLSArray} {q : Text} (holds : Holds s q) {k : Nat} (few : k ≤ q.length)
    (used : 0 < q.length) (placed : s.Placed) : (s.after k).Placed := by
  have count := holds.count
  have inside := holds.nonempty used
  have started := holds.started
  have fits := holds.fits
  unfold SLSArray.dataSize at fits
  have cell := wrapped inside (show k ≤ s.arrayData.length by omega)
  show s.writePos = if ((s.readPos.toNat + k) % s.arrayData.length : Nat) + (s.dataCount - k) < (s.arrayData.length : Int)
    then ((s.readPos.toNat + k) % s.arrayData.length : Nat) + (s.dataCount - k)
    else ((s.readPos.toNat + k) % s.arrayData.length : Nat) + (s.dataCount - k) - s.arrayData.length
  rw [cell]
  unfold SLSArray.Placed SLSArray.dataSize at placed
  split at placed <;> split <;> split <;> omega

theorem Holds.after_gapped {s : SLSArray} {q : Text} (holds : Holds s q) {k : Nat} (few : k ≤ q.length)
    (gapped : s.Gapped) : (s.after k).Gapped := by
  obtain ⟨front,room,used⟩ := gapped
  have count := holds.count
  have started := holds.started
  unfold SLSArray.dataSize at room
  have line : (s.readPos.toNat + k) % s.arrayData.length = s.readPos.toNat + k := Nat.mod_eq_of_lt (by omega)
  constructor
  · exact front
  · show ((s.readPos.toNat + k) % s.arrayData.length : Nat) + (s.dataCount - k) < (s.arrayData.length : Int)
    rw [line]
    omega
  · show 0 < ((s.readPos.toNat + k) % s.arrayData.length : Nat) + (s.dataCount - k)
    rw [line]
    omega

theorem Holds.after {s : SLSArray} {q : Text} (holds : Holds s q) {k : Nat} (few : k ≤ q.length)
    (used : 0 < q.length) : Holds (s.after k) (q.drop k) := by
  have inside := holds.nonempty used
  have count := holds.count
  constructor
  · show s.dataCount - k = _
    rw [List.length_drop]
    omega
  · exact Int.natCast_nonneg _
  · have below := Nat.mod_lt (s.readPos.toNat + k) (Nat.zero_lt_of_lt inside)
    exact Or.inl (Int.ofNat_lt.mpr below)
  · have carries := @Carries.drop _ _ _ _ holds.carries k (by
      rw [List.length_map]
      exact few)
    rw [← List.map_drop] at carries
    exact carries
  · exact holds.isInt
  · obtain placed | gapped := holds.written
    · exact Or.inl (holds.after_placed few used placed)
    · exact Or.inr (holds.after_gapped few gapped)

theorem getInline_after {s : SLSArray} {q : Text} (holds : Holds s q) (used : 0 < q.length) {size : Nat}
    (known : s.Placed ∨ size ≤ q.length) :
    s.getInline size = .ok (s.after (min size q.length),(q.take size).map some) := by
  have inside := holds.nonempty used
  have started := holds.started
  have count := holds.count
  have fits := holds.carries.1
  rw [List.length_map] at fits
  have position : s.readPos = s.readPos.toNat := (Int.toNat_of_nonneg started).symm
  have most : min size q.length ≤ (q.map some).length := by
    rw [List.length_map]
    exact Nat.min_le_right _ _
  have least : (q.map some).take (min size q.length) = (q.take size).map some := by
    rw [← List.map_take,← List.take_take,List.take_length]
  have inLine : s.readPos < s.writePos → s.readPos.toNat + min size q.length ≤ s.arrayData.length := by
    intro behind
    obtain placed | gapped := holds.written
    · unfold SLSArray.Placed SLSArray.dataSize at placed
      split at placed <;> omega
    · have front := gapped.write
      omega
  have ready := holds.ready used known
  have copied := copyReady_read position inside (Nat.le_trans (Nat.min_le_right size _) fits) inLine
  rw [holds.carries.read inside most,least] at copied
  have few : min size q.length ≤ s.arrayData.length := Nat.le_trans (Nat.min_le_right size _) fits
  generalize min size q.length = k at *
  have around : (if s.dataSize ≤ (if s.readPos.toNat + k ≤ s.arrayData.length then ((s.readPos.toNat + k : Nat) : Int)
        else (s.readPos.toNat + k - s.arrayData.length : Nat)) then 0
      else if s.readPos.toNat + k ≤ s.arrayData.length then ((s.readPos.toNat + k : Nat) : Int)
        else (s.readPos.toNat + k - s.arrayData.length : Nat)) = ((s.readPos.toNat + k) % s.arrayData.length : Nat) := by
    rw [wrapped inside few]
    unfold SLSArray.dataSize
    split <;> split <;> split <;> omega
  unfold SLSArray.getInline
  rw [if_neg (by omega)]
  dsimp only
  rw [ready,copied]
  show Except.ok (({s with dataCount := _,readPos := _} : SLSArray),_) = _
  rw [around]
  rfl

theorem getInline_takes {s : SLSArray} {q : Text} (holds : Holds s q) {size : Nat}
    (known : s.Placed ∨ size ≤ q.length) :
    ∃ next, s.getInline size = .ok (next,(q.take size).map some) ∧ Holds next (q.drop size) ∧
      (s.Placed → next.Placed) ∧ next.dataSize = s.dataSize := by
  obtain empty | used := Nat.eq_zero_or_pos q.length
  · have nothing : q = [] := List.length_eq_zero_iff.mp empty
    subst nothing
    have count : s.dataCount = 0 := holds.count
    refine ⟨s,?_,?_,id,rfl⟩
    · unfold SLSArray.getInline
      rw [if_pos count,List.take_nil]
      rfl
    · rw [List.drop_nil]
      exact holds
  · refine ⟨_,getInline_after holds used known,?_,holds.after_placed (Nat.min_le_right _ _) used,rfl⟩
    obtain few | many := Nat.le_total size q.length
    · rw [Nat.min_eq_left few]
      exact holds.after few used
    · rw [Nat.min_eq_right many,List.drop_eq_nil_of_le many,← List.drop_length]
      exact holds.after (Nat.le_refl _) used

theorem copyIn_append (front rest data : Cells) (fits : data.length ≤ rest.length) :
    copyIn (front ++ rest) front.length data = .ok (front ++ data ++ rest.drop data.length) := by
  rw [copyIn_splice (by rw [List.length_append]; omega)]
  unfold splice
  rw [List.take_left,← List.drop_drop,List.drop_left]

theorem int32_sum {x : Int} (low : 0 ≤ x) (high : x < 2 ^ 32) :
    Timecode.int32 x = x ∧ x < 2 ^ 31 ∨ Timecode.int32 x < 0 := by
  unfold Timecode.int32 Int.bmod
  dsimp only
  split <;> omega

theorem lined_holds {q : Text} {rest : Cells} (used : 0 < q.length)
    (isInt : ((q.map some ++ rest).length : Int) < 2 ^ 31) :
    Holds ⟨q.map some ++ rest,q.length,0,0⟩ q := by
  have size : (q.map some ++ rest).length = q.length + rest.length := by rw [List.length_append,List.length_map]
  constructor
  · rfl
  · exact Int.le_refl 0
  · refine Or.inl ?_
    show (0 : Int) < (q.map some ++ rest).length
    omega
  · exact Carries.front _ _
  · exact isInt
  · by_cases full : rest.length = 0
    · refine Or.inl ?_
      show (0 : Int) = if (0 : Int) + q.length < (q.map some ++ rest).length then (0 : Int) + q.length
        else 0 + q.length - (q.map some ++ rest).length
      rw [if_neg (by omega)]
      omega
    · refine Or.inr ⟨rfl,?_,?_⟩
      · show (0 : Int) + q.length < (q.map some ++ rest).length
        omega
      · show (0 : Int) < 0 + q.length
        omega

theorem extend_holds {s : SLSArray} {q : Text} (holds : Holds s q) {data : Text} (isInt : data.length < 2 ^ 31)
    (used : 0 < data.length) :
    s.extend data = .error .badAlloc ∨ ∃ next, s.extend data = .ok next ∧ Holds next (q ++ data) := by
  have fits := holds.fits
  have small := holds.isInt
  have grown : (data.length : Int) ≤ (if (data.length : Int) ≤ defaultMaxDataSize then defaultMaxDataSize else data.length) ∧
      (if (data.length : Int) ≤ defaultMaxDataSize then defaultMaxDataSize else (data.length : Int)) < 2 ^ 31 := by
    unfold defaultMaxDataSize
    split <;> omega
  unfold SLSArray.extend
  dsimp only
  generalize (if (data.length : Int) ≤ defaultMaxDataSize then defaultMaxDataSize else (data.length : Int)) = more at grown ⊢
  by_cases negative : Timecode.int32 (s.dataSize + more) < 0
  · rw [if_pos negative]
    exact Or.inl rfl
  · rw [if_neg negative]
    obtain ⟨whole,room⟩ := (@int32_sum (s.dataSize + more) (by omega) (by omega)).resolve_right negative
    rw [whole]
    have size : (fresh (s.dataSize + more)).length = (s.dataSize + more).toNat := List.length_replicate
    obtain ⟨next,taken,_⟩ := getInline_takes holds (Or.inr (Nat.le_refl q.length))
    rw [List.take_length] at taken
    have first := copyIn_append [] (fresh (s.dataSize + more)) (q.map some) (by rw [List.length_map]; omega)
    have second := copyIn_append (q.map some) ((fresh (s.dataSize + more)).drop (q.map some).length) (data.map some)
      (by rw [List.length_drop,List.length_map,List.length_map]; omega)
    have lined : Holds ⟨(q ++ data).map some ++ (fresh (s.dataSize + more)).drop (q ++ data).length,(q ++ data).length,0,0⟩
        (q ++ data) := by
      apply lined_holds
      · rw [List.length_append]
        omega
      · rw [List.length_append,List.length_drop,List.length_map,List.length_append]
        omega
    refine Or.inr ⟨_,?_,lined⟩
    have first : copyIn (fresh (s.dataSize + more)) 0 (q.map some) =
        .ok (q.map some ++ (fresh (s.dataSize + more)).drop (q.map some).length) := first
    rw [holds.count,taken]
    dsimp only [bind,Except.bind]
    rw [first]
    dsimp only
    rw [second,← List.map_append,List.drop_drop,List.length_map,List.length_map,← List.length_append]
    show Except.ok (SLSArray.mk _ ((q.length : Int) + data.length) 0 0) = Except.ok _
    rw [← Int.natCast_add,← List.length_append]

theorem copyData_write {s : SLSArray} {data : Text} {w : Nat} (position : s.writePos = w) (inside : w < s.arrayData.length)
    (fits : data.length ≤ s.arrayData.length) :
    copyData s data = .ok (Circular.write s.arrayData w (data.map some),
      if w + data.length ≤ s.arrayData.length then (w + data.length : Nat) else (w + data.length - s.arrayData.length : Nat)) := by
  unfold copyData SLSArray.dataSize Circular.write
  rw [position,List.length_map]
  by_cases straight : w + data.length ≤ s.arrayData.length
  · rw [if_pos (by omega),if_pos (by omega),if_pos straight,copyIn_splice (by rw [List.length_map]; exact straight)]
    rfl
  · have first : ((s.arrayData.length : Int) - w).toNat = s.arrayData.length - w := by omega
    have rest : (data.length : Int) - ((s.arrayData.length : Int) - w) = (w + data.length - s.arrayData.length : Nat) := by omega
    have front : w + ((data.take (s.arrayData.length - w)).map some).length ≤ s.arrayData.length := by
      rw [List.length_map,List.length_take]
      omega
    have size := splice_length s.arrayData w ((data.take (s.arrayData.length - w)).map some) front
    have second := @copyIn_splice (splice s.arrayData w ((data.take (s.arrayData.length - w)).map some))
      ((data.drop (s.arrayData.length - w)).map some) 0 (by
        rw [size,List.length_map,List.length_drop]
        omega)
    rw [if_neg (by omega),if_neg (by omega),if_neg straight,← List.map_take,← List.map_drop]
    dsimp only
    rw [first,rest,copyIn_splice front]
    show (copyIn (splice s.arrayData w _) ((0 : Nat) : Int) _ >>= _) = _
    rw [second]
    rfl

theorem put_writes {s : SLSArray} {q : Text} (holds : Holds s q) (placed : s.Placed) {data : Text} (used : 0 < data.length)
    (stays : ¬ s.Expands data) : ∃ next, s.put data = .ok (next,data.length) ∧ Holds next (q ++ data) ∧ next.Placed ∧
      next.dataSize = s.dataSize := by
  have count := holds.count
  have started := holds.started
  have inside := holds.inside
  have fits : ¬ s.dataSize - s.dataCount < data.length := stays
  unfold SLSArray.dataSize at fits inside
  have start : s.readPos.toNat < s.arrayData.length := by omega
  have room : q.length + data.length ≤ s.arrayData.length := by omega
  have cell := wrapped start (show q.length ≤ s.arrayData.length by omega)
  have position : s.writePos = ((s.readPos.toNat + q.length) % s.arrayData.length : Nat) := by
    unfold SLSArray.Placed SLSArray.dataSize at placed
    rw [cell]
    split at placed <;> split <;> omega
  have below : (s.readPos.toNat + q.length) % s.arrayData.length < s.arrayData.length :=
    Nat.mod_lt _ (Nat.zero_lt_of_lt start)
  have copied := copyData_write position below (show data.length ≤ s.arrayData.length by omega)
  have size := write_length s.arrayData ((s.readPos.toNat + q.length) % s.arrayData.length) (data.map some)
    (Nat.le_of_lt below) (by rw [List.length_map]; omega)
  have carries := @Carries.write _ _ _ (data.map some) _ holds.carries start (by
    rw [List.length_map,List.length_map]
    exact room)
  rw [List.length_map,← List.map_append] at carries
  generalize write s.arrayData ((s.readPos.toNat + q.length) % s.arrayData.length) (data.map some) = array at copied size carries
  generalize (s.readPos.toNat + q.length) % s.arrayData.length = w at copied cell below
  refine ⟨{s with
    arrayData := array
    writePos := if s.readPos + (s.dataCount + data.length) < array.length then s.readPos + (s.dataCount + data.length)
      else s.readPos + (s.dataCount + data.length) - array.length
    dataCount := s.dataCount + data.length},?_,?_,rfl,congrArg Int.ofNat size⟩
  · have behind : (if (if w + data.length ≤ s.arrayData.length then ((w + data.length : Nat) : Int)
          else (w + data.length - s.arrayData.length : Nat)) = s.dataSize then 0
        else if w + data.length ≤ s.arrayData.length then ((w + data.length : Nat) : Int)
          else (w + data.length - s.arrayData.length : Nat)) =
        if s.readPos + (s.dataCount + data.length) < array.length then s.readPos + (s.dataCount + data.length)
          else s.readPos + (s.dataCount + data.length) - array.length := by
      rw [size]
      unfold SLSArray.dataSize
      split at cell <;> split <;> split <;> split <;> omega
    unfold SLSArray.put
    rw [if_neg (by omega),if_neg stays,copied]
    show Except.ok (({s with arrayData := _,writePos := _,dataCount := _} : SLSArray),_) = _
    rw [behind]
  · constructor
    · show s.dataCount + data.length = _
      rw [List.length_append]
      omega
    · exact started
    · refine Or.inl ?_
      show s.readPos < array.length
      omega
    · exact carries
    · show (array.length : Int) < 2 ^ 31
      rw [size]
      exact holds.isInt
    · exact Or.inl rfl

theorem put_expands {s : SLSArray} {q : Text} (holds : Holds s q) {data : Text} (isInt : data.length < 2 ^ 31)
    (used : 0 < data.length) (expands : s.Expands data) :
    s.put data = .error .badAlloc ∨ ∃ next, s.put data = .ok (next,data.length) ∧ Holds next (q ++ data) := by
  unfold SLSArray.put
  rw [if_neg (by omega),if_pos expands]
  obtain thrown | ⟨next,extended,held⟩ := extend_holds holds isInt used
  · rw [thrown]
    exact Or.inl rfl
  · rw [extended]
    exact Or.inr ⟨next,rfl,held⟩

theorem put_nothing (s : SLSArray) : s.put [] = .ok (s,slsError) := rfl

/-- What was put is what was returned and what the array holds. -/
def State.Sound (s : State) : Prop := ∃ q, Holds s.array q ∧ s.puts.map some = s.gets ++ q.map some

theorem init_placed (array : Cells) : SLSArray.Placed ⟨array,0,0,0⟩ := by
  show (0 : Int) = if (0 : Int) + 0 < array.length then (0 : Int) + 0 else 0 + 0 - array.length
  split <;> omega

theorem init_holds {n : Int} (low : 0 ≤ n) (isInt : n < 2 ^ 31) : Holds ⟨fresh n,0,0,0⟩ [] := by
  have size : ((fresh n).length : Int) = n := by
    unfold fresh
    rw [List.length_replicate]
    omega
  constructor
  · rfl
  · exact Int.le_refl 0
  · show (0 : Int) < (fresh n).length ∨ (0 : Int) = 0 ∧ ((fresh n).length : Int) = 0
    omega
  · exact Carries.nil _ _
  · show ((fresh n).length : Int) < 2 ^ 31
    omega
  · exact Or.inl (init_placed (fresh n))

theorem clear_holds {s : SLSArray} {q : Text} (holds : Holds s q) : Holds s.clear [] := by
  have isInt := holds.isInt
  constructor
  · rfl
  · exact Int.le_refl 0
  · show (0 : Int) < s.arrayData.length ∨ (0 : Int) = 0 ∧ (s.arrayData.length : Int) = 0
    omega
  · exact Carries.nil _ _
  · exact isInt
  · exact Or.inl (init_placed s.arrayData)

theorem get_takes {s : SLSArray} {q : Text} (holds : Holds s q) {size : Nat}
    (known : s.Placed ∨ (size : Int) ≤ s.dataCount ∨ s.dataCount = 0) :
    ∃ next, s.get size = .ok (next,(q.take size).map some) ∧ Holds next (q.drop size) ∧ (s.Placed → next.Placed) ∧
      next.dataSize = s.dataSize := by
  have count := holds.count
  obtain placed | few | empty := known
  · exact getInline_takes holds (Or.inl placed)
  · exact getInline_takes holds (Or.inr (by omega))
  · have nothing : q = [] := List.length_eq_zero_iff.mp (by omega)
    subst nothing
    refine ⟨s,?_,?_,id,rfl⟩
    · unfold SLSArray.get SLSArray.getInline
      rw [if_pos empty,List.take_nil]
      rfl
    · rw [List.drop_nil]
      exact holds

theorem Holds.placed_or_room {s : SLSArray} {q : Text} (holds : Holds s q) : s.Placed ∨ s.dataCount < s.dataSize := by
  obtain placed | gapped := holds.written
  · exact Or.inl placed
  · have started := holds.started
    have room := gapped.room
    exact Or.inr (by omega)

/-- The only call that misplaces the write position. -/
def Misplaces (s next : State) (op : Op) : Prop :=
  ∃ data isInt, op = .put data isInt ∧ s.array.Expands data ∧ next.array.dataCount < next.array.dataSize

theorem put_appends {s : SLSArray} {q : Text} (holds : Holds s q) {data : Text} (isInt : data.length < 2 ^ 31)
    (safe : s.Placed ∨ s.Expands data ∨ data = []) :
    s.put data = .error .badAlloc ∨ ∃ next written, s.put data = .ok (next,written) ∧ Holds next (q ++ data) ∧
      (s.Placed → next.Placed ∨ s.Expands data ∧ next.dataCount < next.dataSize) := by
  obtain empty | used := Nat.eq_zero_or_pos data.length
  · have nothing : data = [] := List.length_eq_zero_iff.mp empty
    subst nothing
    rw [List.append_nil]
    exact Or.inr ⟨s,slsError,put_nothing s,holds,Or.inl⟩
  · by_cases expands : s.Expands data
    · obtain thrown | ⟨next,done,held⟩ := put_expands holds isInt used expands
      · exact Or.inl thrown
      · exact Or.inr ⟨next,_,done,held,fun _ => held.placed_or_room.imp_right fun room => ⟨expands,room⟩⟩
    · obtain placed | other | nothing := safe
      · obtain ⟨next,done,held,still,_⟩ := put_writes holds placed used expands
        exact Or.inr ⟨next,_,done,held,fun _ => Or.inl still⟩
      · exact absurd other expands
      · rw [nothing] at used
        exact absurd used (Nat.lt_irrefl 0)

theorem step_sound {s : State} (sound : s.Sound) {op : Op} (safe : Safe s op) :
    ∃ next, queue.step s op = some next ∧ next.Sound ∧ (s.array.Placed → next.array.Placed ∨ Misplaces s next op) := by
  obtain ⟨q,holds,all⟩ := sound
  cases op with
  | setSize n isInt =>
    have low : ¬ n < 0 := Int.not_lt.mpr safe
    have sized : SLSArray.setSize n = .ok ⟨fresh n,0,0,0⟩ := by
      unfold SLSArray.setSize
      rw [if_neg low]
      rfl
    refine ⟨⟨⟨fresh n,0,0,0⟩,[],[]⟩,?_,⟨[],init_holds safe isInt,rfl⟩,fun _ => Or.inl (init_placed (fresh n))⟩
    show (SLSArray.setSize n).toOption.map _ = _
    rw [sized]
    rfl
  | clear => exact ⟨_,rfl,⟨[],clear_holds holds,rfl⟩,fun _ => Or.inl (init_placed s.array.arrayData)⟩
  | put data isInt =>
    obtain thrown | ⟨next,written,done,held,still⟩ := put_appends holds isInt safe
    · refine ⟨s,?_,⟨q,holds,all⟩,Or.inl⟩
      show (match s.array.put data with | .ok (array,_) => _ | .error .badAlloc => _ | .error .outOfBounds => _) = _
      rw [thrown]
    · refine ⟨{s with array := next,puts := s.puts ++ data},?_,⟨q ++ data,held,?_⟩,?_⟩
      · show (match s.array.put data with | .ok (array,_) => _ | .error .badAlloc => _ | .error .outOfBounds => _) = _
        rw [done]
      · show (s.puts ++ data).map some = s.gets ++ (q ++ data).map some
        rw [List.map_append,all,List.map_append,List.append_assoc]
      · intro placed
        exact (still placed).imp_right fun ⟨expands,room⟩ => ⟨data,isInt,rfl,expands,room⟩
  | get size =>
    obtain ⟨low,known⟩ := safe
    obtain ⟨n,rfl⟩ := Int.eq_ofNat_of_zero_le low
    obtain ⟨next,taken,held,still,_⟩ := get_takes holds known
    refine ⟨{s with array := next,gets := s.gets ++ (q.take n).map some},?_,⟨q.drop n,held,?_⟩,fun placed => Or.inl (still placed)⟩
    · show (s.array.get n).toOption.map _ = _
      rw [taken]
      rfl
    · show s.puts.map some = s.gets ++ (q.take n).map some ++ (q.drop n).map some
      rw [all,List.append_assoc,← List.map_append,List.take_append_drop]

theorem queue_keeps : queue.Keeps Safe State.Sound := by
  intro s op next sound safe stepped
  obtain ⟨served,found,held,_⟩ := step_sound sound safe
  rw [stepped] at found
  rw [Option.some.inj found]
  exact held

theorem init_sound : State.init.Sound :=
  ⟨[],init_holds (by unfold defaultMaxDataSize; omega) (by unfold defaultMaxDataSize; omega),rfl⟩

theorem copyOut_length {array bytes : Cells} {pos len : Int} (copied : copyOut array pos len = .ok bytes) :
    (bytes.length : Int) = len := by
  unfold copyOut at copied
  split at copied
  · rename_i bounds
    rw [← Except.ok.inj copied,slice_length]
    omega
  · contradiction

theorem copyReady_length {s : SLSArray} {copyLen readPos : Int} {bytes : Cells}
    (copied : copyReady s copyLen = .ok (bytes,readPos)) : (bytes.length : Int) = copyLen := by
  unfold copyReady at copied
  split at copied
  · cases out : copyOut s.arrayData s.readPos copyLen with
    | error fault =>
      rw [out] at copied
      contradiction
    | ok first =>
      rw [out] at copied
      rw [← (Prod.mk.inj (Except.ok.inj copied)).1]
      exact copyOut_length out
  · cases out : copyOut s.arrayData s.readPos (s.dataSize - s.readPos) with
    | error fault =>
      rw [out] at copied
      contradiction
    | ok first =>
      cases around : copyOut s.arrayData 0 (copyLen - (s.dataSize - s.readPos)) with
      | error fault =>
        rw [out] at copied
        dsimp only [bind,Except.bind] at copied
        rw [around] at copied
        contradiction
      | ok second =>
        rw [out] at copied
        dsimp only [bind,Except.bind] at copied
        rw [around] at copied
        have whole := copyOut_length out
        have more := copyOut_length around
        rw [← (Prod.mk.inj (Except.ok.inj copied)).1,List.length_append]
        omega

theorem get_length {s after : SLSArray} {size : Int} {bytes : Cells} (used : s.dataCount ≠ 0)
    (got : s.get size = .ok (after,bytes)) :
    (bytes.length : Int) = min (if s.readPos < s.writePos then s.writePos - s.readPos else s.dataSize - s.readPos + s.writePos) size := by
  unfold SLSArray.get SLSArray.getInline at got
  rw [if_neg used] at got
  dsimp only at got
  rw [Int.min_def]
  cases copied : copyReady s (if (if s.readPos < s.writePos then s.writePos - s.readPos else s.dataSize - s.readPos + s.writePos) ≤ size
      then (if s.readPos < s.writePos then s.writePos - s.readPos else s.dataSize - s.readPos + s.writePos) else size) with
  | error fault =>
    rw [copied] at got
    contradiction
  | ok r =>
    rw [copied] at got
    rw [← (Prod.mk.inj (Except.ok.inj got)).2]
    exact copyReady_length copied

/-- Behind a gap the read position never meets the write position: more is returned than is held. -/
theorem Gapped_get {s after : SLSArray} {q : Text} (holds : Holds s q) {size : Int} {bytes : Cells} (gapped : s.Gapped)
    (used : 0 < s.dataCount) (more : s.dataCount < size) (got : s.get size = .ok (after,bytes)) : s.dataCount < bytes.length := by
  have started := holds.started
  obtain ⟨front,room,_⟩ := gapped
  have length := get_length (by omega) got
  split at length <;> omega

/-- A write into the gap lands on the oldest bytes. -/
theorem Gapped_put {s : SLSArray} {q : Text} (holds : Holds s q) (gapped : s.Gapped) {data : Text} (used : 0 < data.length)
    (stays : ¬ s.Expands data) :
    ∃ next, s.put data = .ok (next,data.length) ∧
      ∀ after bytes, next.get next.dataSize = .ok (after,bytes) → (bytes.length : Int) ≠ next.dataCount := by
  have count := holds.count
  have fits : ¬ s.dataSize - s.dataCount < data.length := stays
  obtain ⟨front,room,behind⟩ := gapped
  unfold SLSArray.dataSize at fits room
  have bytesFit : 0 + (data.map some).length ≤ s.arrayData.length := by
    rw [List.length_map]
    omega
  have size := splice_length s.arrayData 0 (data.map some) bytesFit
  have copied : copyData s data = .ok (splice s.arrayData 0 (data.map some),(data.length : Int)) := by
    unfold copyData SLSArray.dataSize
    rw [front,if_pos (by omega)]
    have direct := copyIn_splice bytesFit
    show (copyIn s.arrayData ((0 : Nat) : Int) _ >>= _) = _
    rw [direct]
    show Except.ok (_,(0 : Int) + _) = _
    rw [Int.zero_add]
  refine ⟨{s with
    arrayData := splice s.arrayData 0 (data.map some)
    writePos := if (data.length : Int) = s.dataSize then 0 else data.length
    dataCount := s.dataCount + data.length},?_,?_⟩
  · unfold SLSArray.put
    rw [if_neg (by omega),if_neg stays,copied]
    rfl
  · intro after bytes got
    have length := get_length (show s.dataCount + data.length ≠ 0 by omega) got
    unfold SLSArray.dataSize at length
    dsimp only at length ⊢
    rw [size] at length
    split at length <;> split at length <;> omega

/-- Up to a call that meets a misplaced write position the array is a first-in first-out
queue, and each such call is served wrongly. -/
theorem array_is_queue_iff (ops : List Op) (s : State) (admitted : queue.Admits Safe .init ops)
    (ran : queue.run .init ops = some s) :
    s.gets = (s.puts.take s.gets.length).map some ∧ s.array.dataCount = s.puts.length - s.gets.length ∧
      (∀ op, Safe s op → ∃ next, queue.step s op = some next ∧ (s.array.Placed → next.array.Placed ∨ Misplaces s next op)) ∧
      (∀ size : Nat, (∃ next, s.array.get size = .ok (next,((s.puts.drop s.gets.length).take size).map some)) ↔
        Safe s (.get size)) ∧
      ∀ data isInt, ¬ Safe s (.put data isInt) → ∃ next, s.array.put data = .ok (next,data.length) ∧
        ∀ after bytes, next.get next.dataSize = .ok (after,bytes) → (bytes.length : Int) ≠ next.dataCount := by
  have sound : s.Sound := queue_keeps.run init_sound admitted ran
  obtain ⟨q,holds,all⟩ := sound
  have lengths := congrArg List.length all
  rw [List.length_map,List.length_append,List.length_map] at lengths
  have returned : s.gets = (s.puts.take s.gets.length).map some := by
    rw [List.map_take,all,List.take_left]
  have held : s.puts.drop s.gets.length = q := by
    apply List.map_injective_iff.mpr (Option.some_injective UInt8)
    rw [List.map_drop,all,List.drop_left]
  have count := holds.count
  refine ⟨returned,?_,?_,?_,?_⟩
  · omega
  · intro op safe
    obtain ⟨next,stepped,_,still⟩ := step_sound ⟨q,holds,all⟩ safe
    exact ⟨next,stepped,still⟩
  · intro size
    rw [held]
    constructor
    · rintro ⟨next,got⟩
      refine ⟨Int.natCast_nonneg size,?_⟩
      obtain placed | gapped := holds.written
      · exact Or.inl placed
      · by_contra wrong
        obtain ⟨_,more⟩ := not_or.mp wrong
        have longer := Gapped_get holds gapped (by omega) (by omega) got
        rw [List.length_map,List.length_take] at longer
        omega
    · rintro ⟨_,known⟩
      obtain ⟨next,taken,_⟩ := get_takes holds known
      exact ⟨next,taken⟩
  · intro data isInt broken
    obtain ⟨misplaced,rest⟩ := not_or.mp broken
    obtain ⟨stays,nonempty⟩ := not_or.mp rest
    exact Gapped_put holds (holds.written.resolve_left misplaced) (List.length_pos_iff.mpr nonempty) stays

theorem array_is_queue_iff_wrapped :
    let s : State := ⟨⟨[some 4,some 5,some 3],3,2,2⟩,[1,2,3,4,5],[some 1,some 2]⟩
    queue.Admits Safe .init [.setSize 3 (by decide),.put [1,2,3] (by decide),.get 2,.put [4,5] (by decide)] ∧
      ∀ size : Nat, (∃ next, s.array.get size = .ok (next,((s.puts.drop s.gets.length).take size).map some)) ↔
        Safe s (.get size) := by
  have admitted : queue.Admits Safe .init [.setSize 3 (by decide),.put [1,2,3] (by decide),.get 2,.put [4,5] (by decide)] := by
    decide
  exact ⟨admitted,(array_is_queue_iff _ _ admitted rfl).2.2.2.1⟩

/-- A put that expands the array of the constructor, and a get that asks for more than it holds. -/
theorem expanded_array_overreads :
    ((queue.run .init [.put (List.replicate 4097 0) (by rw [List.length_replicate]; omega),.get 8193]).map
      fun s => (s.puts.length,s.gets.length,s.array.dataCount)) = some (4097,8193,-4096) := by
  decide +kernel

end SrtLiveServer.SlsArray
