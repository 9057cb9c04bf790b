import SrtLiveServer.Circular

/-! The per-stream ring of `CSLSRecycleArray` and its reader anchors. `put` is
kept in its two parts, the write-locked copy and the counter published after
the lock, so that atomic and interleaved executions share one definition. The
process-wide generation source is passed in by the caller. -/
namespace SrtLiveServer.RecycleArray
open Circular

/-- `SLSRecycleArrayID`: a reader's position, its consumed-byte counter and the
incarnation it anchored on. -/
structure ReadID where
  readPos : Nat
  dataCount : Nat
  first : Bool
  generation : Nat
deriving DecidableEq,Repr

def ReadID.fresh : ReadID := ⟨0,0,true,0⟩

structure Ring where
  arrayData : List UInt8
  dataSize : Nat
  dataCount : Nat
  writePos : Nat
  lastReadTime : Int
  overrunCount : Nat
  maxReaderBacklog : Int
  generation : Nat
deriving DecidableEq,Repr

def defaultMaxDataSize : Nat := 8 * 1024 * 1024

def create (generation : Nat) (now : Int) : Ring where
  arrayData := List.replicate defaultMaxDataSize 0
  dataSize := defaultMaxDataSize
  dataCount := 0
  writePos := 0
  lastReadTime := now
  overrunCount := 0
  maxReaderBacklog := 0
  generation := generation

def setSize (ring : Ring) (n generation : Nat) : Ring :=
  {ring with
    dataSize := n
    writePos := 0
    dataCount := 0
    generation := generation
    arrayData := List.replicate n 0}

/-- The write-locked block of `put`: copy, advance the write head, wrap it. -/
def putCopy (ring : Ring) (data : List UInt8) : Ring :=
  let firstLen := ring.dataSize - ring.writePos
  let copied : List UInt8 × Nat :=
    if data.length ≤ firstLen then
      (splice ring.arrayData ring.writePos data,ring.writePos + data.length)
    else
      (splice (splice ring.arrayData ring.writePos (data.take firstLen)) 0 (data.drop firstLen),
        data.length - firstLen)
  {ring with
    arrayData := copied.1
    writePos := if copied.2 = ring.dataSize then 0 else copied.2}

/-- The counter update of `put`, published after the lock is released. -/
def putCount (ring : Ring) (len : Nat) : Ring := {ring with dataCount := ring.dataCount + len}

/-- `none` is `SLS_ERROR`: an empty or an oversized block leaves the ring as it was. -/
def put (ring : Ring) (data : List UInt8) : Ring × Option Nat :=
  if data.length = 0 then (ring,none)
  else if ring.dataSize < data.length then (ring,none)
  else (putCount (putCopy ring data) data.length,some data.length)

def copyDataLen (ready size aligned : Nat) : Nat :=
  let copy := if ready ≤ size then ready else size
  if 0 < aligned then copy / aligned * aligned else copy

def wrapReadPos (ring : Ring) (readPos : Nat) : Nat :=
  let readPos := if readPos = ring.dataSize then 0 else readPos
  if ring.dataSize < readPos then 0 else readPos

def drain (ring : Ring) (reader : ReadID) (size aligned : Nat) : ReadID × List UInt8 :=
  let copied : Nat × List UInt8 :=
    if reader.readPos < ring.writePos then
      let copy := copyDataLen (ring.writePos - reader.readPos) size aligned
      if 0 < copy then (reader.readPos + copy,slice ring.arrayData reader.readPos copy)
      else (reader.readPos,[])
    else
      let copy := copyDataLen (ring.dataSize - reader.readPos + ring.writePos) size aligned
      if 0 < copy then
        if copy ≤ ring.dataSize - reader.readPos then
          (reader.readPos + copy,slice ring.arrayData reader.readPos copy)
        else
          (copy - (ring.dataSize - reader.readPos),
            slice ring.arrayData reader.readPos (ring.dataSize - reader.readPos) ++
              slice ring.arrayData 0 (copy - (ring.dataSize - reader.readPos)))
      else (reader.readPos,[])
  ({reader with
    readPos := wrapReadPos ring copied.1
    dataCount := reader.dataCount + copied.2.length},copied.2)

/-- The new ring, the new reader state and the bytes copied out. The return
code is the number of bytes, which is `SLS_OK` when there are none. -/
def get (ring : Ring) (size : Nat) (reader : ReadID) (aligned : Nat) (now : Int) :
    Ring × ReadID × List UInt8 :=
  if reader.first then
    (ring,{readPos := ring.writePos,dataCount := ring.dataCount,generation := ring.generation,first := false},[])
  else if reader.generation ≠ ring.generation then
    (ring,{reader with readPos := ring.writePos,dataCount := ring.dataCount,generation := ring.generation},[])
  else if reader.readPos = ring.writePos ∧ ring.dataCount = reader.dataCount then
    (ring,reader,[])
  else
    let bytesSinceLastRead : Int := ring.dataCount - reader.dataCount
    if (ring.dataSize : Int) ≤ bytesSinceLastRead ∨ bytesSinceLastRead < 0 then
      ({ring with overrunCount := ring.overrunCount + 1},
        {reader with readPos := ring.writePos,dataCount := ring.dataCount},[])
    else
      let ring := {ring with
        maxReaderBacklog := max ring.maxReaderBacklog bytesSinceLastRead
        lastReadTime := now}
      (ring,drain ring reader size aligned)

/-- The ring's buffer and write head represent `stream`, all bytes copied in so
far. The published counter is not part of it. -/
structure Represents (ring : Ring) (stream : List UInt8) : Prop where
  positive : 0 < ring.dataSize
  sized : ring.arrayData.length = ring.dataSize
  head : ring.writePos = stream.length % ring.dataSize
  held : Holds ring.arrayData stream

theorem represents_empty (ring : Ring) (positive : 0 < ring.dataSize)
    (sized : ring.arrayData.length = ring.dataSize) (start : ring.writePos = 0) : Represents ring [] :=
  ⟨positive,sized,by simp [start],fun i bound => absurd bound (by simp)⟩

theorem Represents.head_lt {ring : Ring} {stream : List UInt8} (represents : Represents ring stream) :
    ring.writePos < ring.dataSize := by
  rw [represents.head]
  exact Nat.mod_lt _ represents.positive

theorem putCopy_arrayData (ring : Ring) (data : List UInt8)
    (sized : ring.arrayData.length = ring.dataSize) :
    (putCopy ring data).arrayData = write ring.arrayData ring.writePos data := by
  unfold putCopy write
  rw [sized]
  dsimp only
  split <;> rfl

theorem putCopy_writePos (ring : Ring) (data : List UInt8)
    (inside : ring.writePos < ring.dataSize) (fits : data.length ≤ ring.dataSize) :
    (putCopy ring data).writePos = (ring.writePos + data.length) % ring.dataSize := by
  unfold putCopy
  dsimp only
  by_cases direct : data.length ≤ ring.dataSize - ring.writePos
  · simp only [if_pos direct]
    split
    · rename_i full
      rw [full,Nat.mod_self]
    · rw [Nat.mod_eq_of_lt (by omega)]
  · simp only [if_neg direct]
    rw [if_neg (by omega),Nat.mod_eq_sub_mod (by omega),Nat.mod_eq_of_lt (by omega)]
    omega

@[simp] theorem putCopy_dataSize (ring : Ring) (data : List UInt8) :
    (putCopy ring data).dataSize = ring.dataSize := rfl

@[simp] theorem putCopy_dataCount (ring : Ring) (data : List UInt8) :
    (putCopy ring data).dataCount = ring.dataCount := rfl

@[simp] theorem putCopy_generation (ring : Ring) (data : List UInt8) :
    (putCopy ring data).generation = ring.generation := rfl

theorem Represents.putCopy {ring : Ring} {stream : List UInt8} (represents : Represents ring stream)
    (data : List UInt8) (fits : data.length ≤ ring.dataSize) :
    Represents (putCopy ring data) (stream ++ data) := by
  have inside := represents.head_lt
  refine ⟨represents.positive,?_,?_,?_⟩
  · rw [putCopy_arrayData ring data represents.sized,
      write_length _ _ _ (by rw [represents.sized]; omega) (by rw [represents.sized]; exact fits),
      represents.sized,putCopy_dataSize]
  · rw [putCopy_writePos ring data inside fits,represents.head,Nat.mod_add_mod,
      List.length_append,putCopy_dataSize]
  · rw [putCopy_arrayData ring data represents.sized,represents.head,← represents.sized]
    exact holds_write _ _ _ represents.held (by rw [represents.sized]; exact fits)
      (by rw [represents.sized]; exact represents.positive)

theorem Represents.congr {ring : Ring} {stream : List UInt8} (represents : Represents ring stream)
    (other : Ring) (data : other.arrayData = ring.arrayData) (size : other.dataSize = ring.dataSize)
    (head : other.writePos = ring.writePos) : Represents other stream :=
  ⟨size ▸ represents.positive,by rw [data,size]; exact represents.sized,
    by rw [head,size]; exact represents.head,by rw [data]; exact represents.held⟩

theorem copyDataLen_le_ready (ready size aligned : Nat) : copyDataLen ready size aligned ≤ ready := by
  have cut : (if ready ≤ size then ready else size) ≤ ready := by split <;> omega
  unfold copyDataLen
  dsimp only
  split
  · exact (Nat.div_mul_le_self _ _).trans cut
  · exact cut

theorem copyDataLen_le_size (ready size aligned : Nat) : copyDataLen ready size aligned ≤ size := by
  have cut : (if ready ≤ size then ready else size) ≤ size := by split <;> omega
  unfold copyDataLen
  dsimp only
  split
  · exact (Nat.div_mul_le_self _ _).trans cut
  · exact cut

/-- Both branches of `get` compute the distance from the read to the write
position, once the reader is neither level with the head nor lapped by it. -/
private theorem ready_cases (offset total n : Nat) (positive : 0 < n) (behind : offset < total)
    (near : total ≤ offset + n) :
    (offset % n < total % n ∧ total % n - offset % n = total - offset) ∨
    (¬ offset % n < total % n ∧ n - offset % n + total % n = total - offset) := by
  have small := Nat.mod_lt offset positive
  have shifted : total % n = (offset % n + (total - offset)) % n := by
    rw [Nat.mod_add_mod]
    congr 1
    omega
  rw [shifted]
  generalize offset % n = pos at small
  by_cases straight : pos + (total - offset) < n
  · rw [Nat.mod_eq_of_lt straight]
    omega
  · rw [Nat.mod_eq_sub_mod (by omega),Nat.mod_eq_of_lt (by omega)]
    omega

private theorem wrapReadPos_mod (ring : Ring) (pos : Nat) (positive : 0 < ring.dataSize)
    (bound : pos ≤ ring.dataSize) : wrapReadPos ring pos = pos % ring.dataSize := by
  unfold wrapReadPos
  dsimp only
  split
  · rename_i full
    rw [full,Nat.mod_self,if_neg (by omega)]
  · rw [if_neg (by omega),Nat.mod_eq_of_lt (by omega)]

/-- Draining from stream offset `offset`, behind the head by at most one
buffer, hands out exactly the next stream bytes and advances by as many. -/
theorem drain_stream {ring : Ring} {stream : List UInt8} (represents : Represents ring stream)
    (reader : ReadID) (offset size aligned : Nat) (position : reader.readPos = offset % ring.dataSize)
    (behind : offset < stream.length) (near : stream.length ≤ offset + ring.dataSize) :
    drain ring reader size aligned =
      ({reader with
        readPos := (offset + copyDataLen (stream.length - offset) size aligned) % ring.dataSize
        dataCount := reader.dataCount + copyDataLen (stream.length - offset) size aligned},
        slice stream offset (copyDataLen (stream.length - offset) size aligned)) := by
  have cutReady := copyDataLen_le_ready (stream.length - offset) size aligned
  have small := Nat.mod_lt offset represents.positive
  generalize copied : copyDataLen (stream.length - offset) size aligned = copy at cutReady ⊢
  have bytes : Circular.read ring.arrayData (offset % ring.dataSize) copy = slice stream offset copy := by
    have := read_holds ring.arrayData stream represents.held offset copy
      (by rw [represents.sized]; exact represents.positive) (by omega)
      (by rw [represents.sized]; exact near)
    rwa [represents.sized] at this
  have counted : (slice stream offset copy).length = copy := by simp; omega
  have straight : copy ≤ ring.dataSize - offset % ring.dataSize →
      slice ring.arrayData (offset % ring.dataSize) copy = slice stream offset copy := by
    intro fits
    rw [← bytes,Circular.read,represents.sized,if_pos fits]
  have moved : ∀ pos, pos % ring.dataSize = (offset + copy) % ring.dataSize → pos ≤ ring.dataSize →
      wrapReadPos ring pos = (offset + copy) % ring.dataSize := by
    intro pos same bound
    rw [wrapReadPos_mod ring pos represents.positive bound,same]
  have still : copy = 0 → slice stream offset copy = [] := by
    intro empty
    rw [empty,slice_zero]
  unfold drain
  rw [position,represents.head]
  rcases ready_cases offset stream.length ring.dataSize represents.positive behind near with
    ⟨below,ready⟩ | ⟨above,ready⟩
  · have headBound := Nat.mod_lt stream.length represents.positive
    rw [if_pos below,ready,copied]
    by_cases some : 0 < copy
    · simp only [if_pos some]
      rw [straight (by omega),counted,moved _ (by rw [Nat.mod_add_mod]) (by omega)]
    · have none : copy = 0 := by omega
      simp only [if_neg some]
      rw [still none,none,moved _ (by simp [none]) (by omega)]
      simp [none]
  · rw [if_neg above,ready,copied]
    by_cases some : 0 < copy
    · simp only [if_pos some]
      by_cases fits : copy ≤ ring.dataSize - offset % ring.dataSize
      · simp only [if_pos fits]
        rw [straight fits,counted,moved _ (by rw [Nat.mod_add_mod]) (by omega)]
      · simp only [if_neg fits]
        have joined : slice ring.arrayData (offset % ring.dataSize) (ring.dataSize - offset % ring.dataSize) ++
            slice ring.arrayData 0 (copy - (ring.dataSize - offset % ring.dataSize)) =
              slice stream offset copy := by
          rw [← bytes,Circular.read,represents.sized,if_neg fits]
        have around : (copy - (ring.dataSize - offset % ring.dataSize)) % ring.dataSize =
            (offset + copy) % ring.dataSize := by
          rw [← Nat.mod_add_mod offset,Nat.mod_eq_sub_mod (by omega : ring.dataSize ≤ offset % ring.dataSize + copy)]
          congr 1
          omega
        rw [joined,counted,moved _ around (by omega)]
    · have none : copy = 0 := by omega
      simp only [if_neg some]
      rw [still none,none,moved _ (by simp [none]) (by omega)]
      simp [none]

theorem get_anchor (ring : Ring) (size : Nat) (reader : ReadID) (aligned : Nat) (now : Int)
    (stale : reader.first = true ∨ reader.generation ≠ ring.generation) :
    get ring size reader aligned now =
      (ring,⟨ring.writePos,ring.dataCount,false,ring.generation⟩,[]) := by
  unfold get
  by_cases first : reader.first = true
  · rw [if_pos first]
  · have other := stale.resolve_left first
    rw [if_neg first,if_pos other]
    simp only [Bool.not_eq_true] at first
    rw [first]

theorem get_overrun (ring : Ring) (size : Nat) (reader : ReadID) (aligned : Nat) (now : Int)
    (anchored : reader.first = false) (same : reader.generation = ring.generation)
    (positive : 0 < ring.dataSize) (lapped : reader.dataCount + ring.dataSize ≤ ring.dataCount) :
    get ring size reader aligned now =
      ({ring with overrunCount := ring.overrunCount + 1},
        {reader with readPos := ring.writePos,dataCount := ring.dataCount},[]) := by
  unfold get
  rw [if_neg (by simp [anchored]),if_neg (by simp [same]),if_neg (by omega)]
  dsimp only
  rw [if_pos (by omega)]

theorem get_level (ring : Ring) (size : Nat) (reader : ReadID) (aligned : Nat) (now : Int)
    (anchored : reader.first = false) (same : reader.generation = ring.generation)
    (level : reader.readPos = ring.writePos) (consumed : ring.dataCount = reader.dataCount) :
    get ring size reader aligned now = (ring,reader,[]) := by
  unfold get
  rw [if_neg (by simp [anchored]),if_neg (by simp [same]),if_pos ⟨level,consumed⟩]

theorem get_drain {ring : Ring} {stream : List UInt8} (represents : Represents ring stream)
    (size : Nat) (reader : ReadID) (aligned : Nat) (now : Int)
    (anchored : reader.first = false) (same : reader.generation = ring.generation)
    (position : reader.readPos = reader.dataCount % ring.dataSize)
    (behind : reader.dataCount < stream.length) (near : stream.length ≤ reader.dataCount + ring.dataSize)
    (published : reader.dataCount ≤ ring.dataCount) (unlapped : ring.dataCount < reader.dataCount + ring.dataSize)
    (moving : ¬ (reader.readPos = ring.writePos ∧ ring.dataCount = reader.dataCount)) :
    get ring size reader aligned now =
      ({ring with
        maxReaderBacklog := max ring.maxReaderBacklog (ring.dataCount - reader.dataCount)
        lastReadTime := now},
        {reader with
          readPos := (reader.dataCount + copyDataLen (stream.length - reader.dataCount) size aligned) % ring.dataSize
          dataCount := reader.dataCount + copyDataLen (stream.length - reader.dataCount) size aligned},
        slice stream reader.dataCount (copyDataLen (stream.length - reader.dataCount) size aligned)) := by
  unfold get
  rw [if_neg (by simp [anchored]),if_neg (by simp [same]),if_neg moving]
  dsimp only
  rw [if_neg (by omega)]
  let noted : Ring := {ring with
    maxReaderBacklog := max ring.maxReaderBacklog (ring.dataCount - reader.dataCount)
    lastReadTime := now}
  have drained := drain_stream (represents.congr noted rfl rfl rfl) reader reader.dataCount
    size aligned position behind near
  rw [drained]

end SrtLiveServer.RecycleArray
