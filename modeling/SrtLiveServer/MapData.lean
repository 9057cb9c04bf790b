import Mathlib.Data.List.AList
import SrtLiveServer.Bytes
import SrtLiveServer.RecycleArray
import SrtLiveServer.Transition

/-! The rings of a server and their budget, `CSLSMapData`. Every ring has a
continuity state beside it, and two counters follow the rings that are allocated;
`add` refuses a ring that would take a counter past its cap. The counters do not
wrap: they would need more rings than there is memory for. -/
namespace SrtLiveServer.MapData
open Bytes RecycleArray Transition

variable {Cc Tc : Type}

/-- `sls_ts_check_continuity` and `sls_ts_scan_timecode` with their initial states. -/
structure Scanners (Cc Tc : Type) where
  initCc : Cc
  checkContinuity : List UInt8 → Cc → Int × Cc
  initTc : Tc
  scanTimecode : List UInt8 → Tc → Tc

structure Stream where
  ring : Ring
  ingestDiscontinuities : Nat

structure State (Cc Tc : Type) where
  mapArray : AList fun _ : Text => Stream
  mapCcState : AList fun _ : Text => Cc
  mapTcState : AList fun _ : Text => Tc
  streamCount : Int
  totalRingBytes : Int
  maxStreams : Int
  maxTotalRingBytes : Int

def State.start : State Cc Tc := ⟨∅,∅,∅,0,0,0,0⟩

def State.setCaps (s : State Cc Tc) (maxStreams maxTotalRingBytes : Int) : State Cc Tc :=
  {s with maxStreams := maxStreams,maxTotalRingBytes := maxTotalRingBytes}

def maxRingBytes : Int := 32 * 1024 * 1024

def intendedSize (maxBitrateKbps latencyMs : Int) : Int :=
  if 0 < maxBitrateKbps ∧ 0 < latencyMs then
    let bytesPerSec := maxBitrateKbps * 1000 / 8
    let windowSecs := if latencyMs / 1000 < 1 then 1 else latencyMs / 1000
    let targetBytes := bytesPerSec * windowSecs
    let targetBytes := if maxRingBytes < targetBytes then maxRingBytes else targetBytes
    if (defaultMaxDataSize : Int) < targetBytes then targetBytes else defaultMaxDataSize
  else defaultMaxDataSize

/-- The ring `add` allocates, of the default size and grown to `intended` if that is
more; a new buffer has a new generation. -/
def allocate (intended : Int) (made grown : Nat) (now : Int) : Ring :=
  let dataArray := create made now
  if (dataArray.dataSize : Int) < intended then setSize dataArray intended.toNat grown else dataArray

def State.add (scanners : Scanners Cc Tc) (s : State Cc Tc) (key : Text) (maxBitrateKbps latencyMs : Int)
    (made grown : Nat) (now : Int) : Bool × State Cc Tc :=
  match s.mapArray.lookup key with
  | some _ => (true,s)
  | none =>
    if 0 < s.maxStreams ∧ s.maxStreams ≤ s.streamCount then (false,s)
    else
      let intended := intendedSize maxBitrateKbps latencyMs
      if 0 < s.maxTotalRingBytes ∧ s.maxTotalRingBytes < s.totalRingBytes + intended then (false,s)
      else
        let dataArray := allocate intended made grown now
        (true,{s with
          mapArray := s.mapArray.insert key ⟨dataArray,0⟩
          streamCount := s.streamCount + 1
          totalRingBytes := s.totalRingBytes + dataArray.dataSize
          mapCcState := match s.mapCcState.lookup key with
            | some _ => s.mapCcState
            | none => s.mapCcState.insert key scanners.initCc})

def State.remove (s : State Cc Tc) (key : Text) : Bool × State Cc Tc :=
  let freed := {s with mapCcState := s.mapCcState.erase key,mapTcState := s.mapTcState.erase key}
  match s.mapArray.lookup key with
  | some stream => (true,{freed with
      streamCount := s.streamCount - 1
      totalRingBytes := s.totalRingBytes - stream.ring.dataSize
      mapArray := s.mapArray.erase key})
  | none => (false,freed)

def State.clear (s : State Cc Tc) : State Cc Tc :=
  {s with
    streamCount := s.mapArray.entries.foldl (fun count _ => count - 1) s.streamCount
    totalRingBytes := s.mapArray.entries.foldl (fun bytes entry => bytes - entry.2.ring.dataSize) s.totalRingBytes
    mapArray := ∅
    mapCcState := ∅
    mapTcState := ∅}

/-- The return code, the ring's last read time, and the streams after the call. -/
def State.put (scanners : Scanners Cc Tc) (s : State Cc Tc) (key : Text) (data : List UInt8) :
    Option Nat × Option Int × State Cc Tc :=
  match s.mapArray.lookup key with
  | none => (none,none,s)
  | some stream =>
    let checked := match s.mapCcState.lookup key with
      | some cc =>
        let (breaks,cc) := scanners.checkContinuity data cc
        (if 0 < breaks then stream.ingestDiscontinuities + 1 else stream.ingestDiscontinuities,
          s.mapCcState.insert key cc)
      | none => (stream.ingestDiscontinuities,s.mapCcState)
    let mapTcState := match s.mapTcState.lookup key with
      | some tc => s.mapTcState.insert key (scanners.scanTimecode data tc)
      | none => s.mapTcState
    let (ring,ret) := RecycleArray.put stream.ring data
    (ret,some stream.ring.lastReadTime,{s with
      mapArray := s.mapArray.insert key ⟨ring,checked.1⟩
      mapCcState := checked.2
      mapTcState := mapTcState})

def State.get (s : State Cc Tc) (key : Text) (size : Nat) (reader : ReadID) (aligned : Nat) (now : Int) :
    Option (ReadID × List UInt8) × State Cc Tc :=
  match s.mapArray.lookup key with
  | none => (none,s)
  | some stream =>
    let (ring,reader,bytes) := RecycleArray.get stream.ring size reader aligned now
    (some (reader,bytes),{s with mapArray := s.mapArray.insert key {stream with ring := ring}})

/-- `key` is a null pointer where there is none. -/
def State.setTimecodeScan (scanners : Scanners Cc Tc) (s : State Cc Tc) (key : Option Text) (enabled : Bool) :
    State Cc Tc :=
  match key with
  | none => s
  | some key =>
    if !enabled then {s with mapTcState := s.mapTcState.erase key}
    else match s.mapTcState.lookup key with
      | some _ => s
      | none => {s with mapTcState := s.mapTcState.insert key scanners.initTc}

inductive Call where
  | add (key : Text) (maxBitrateKbps latencyMs : Int) (made grown : Nat) (now : Int)
  | remove (key : Text)
  | clear
  | put (key : Text) (data : List UInt8)
  | get (key : Text) (size : Nat) (reader : ReadID) (aligned : Nat) (now : Int)
  | setTimecodeScan (key : Option Text) (enabled : Bool)

def State.step (scanners : Scanners Cc Tc) (s : State Cc Tc) : Call → Option (State Cc Tc)
  | .add key maxBitrateKbps latencyMs made grown now =>
    some (s.add scanners key maxBitrateKbps latencyMs made grown now).2
  | .remove key => some (s.remove key).2
  | .clear => some s.clear
  | .put key data => some (s.put scanners key data).2.2
  | .get key size reader aligned now => some (s.get key size reader aligned now).2
  | .setTimecodeScan key enabled => some (s.setTimecodeScan scanners key enabled)

def streams (scanners : Scanners Cc Tc) : Machine (State Cc Tc) Call := ⟨State.step scanners⟩

def ringBytes (mapArray : AList fun _ : Text => Stream) : Int :=
  (mapArray.entries.map fun entry => (entry.2.ring.dataSize : Int)).sum

/-- The counters are those of the rings there are and keep to the caps, and the
keys with a continuity state are those with a ring. -/
structure Balanced (maxStreams maxTotalRingBytes : Int) (s : State Cc Tc) : Prop where
  caps : s.maxStreams = maxStreams ∧ s.maxTotalRingBytes = maxTotalRingBytes
  count : s.streamCount = s.mapArray.entries.length
  bytes : s.totalRingBytes = ringBytes s.mapArray
  countCap : 0 < maxStreams → s.streamCount ≤ maxStreams
  bytesCap : 0 < maxTotalRingBytes → s.totalRingBytes ≤ maxTotalRingBytes
  states : ∀ key, key ∈ s.mapCcState ↔ key ∈ s.mapArray

theorem erase_split {mapArray : AList fun _ : Text => Stream} {key : Text} {stream : Stream}
    (found : mapArray.lookup key = some stream) :
    mapArray.entries.length = (mapArray.erase key).entries.length + 1 ∧
      ringBytes mapArray = ringBytes (mapArray.erase key) + stream.ring.dataSize := by
  have member : (⟨key,stream⟩ : Sigma fun _ : Text => Stream) ∈ mapArray.entries := AList.mem_lookup_iff.mp found
  have present : key ∈ mapArray.entries.keys := List.mem_keys_of_mem member
  obtain ⟨other,before,after,_,split,erased⟩ := List.exists_of_kerase present
  have same : stream = other := by
    apply mapArray.nodupKeys.eq_of_mk_mem member
    rw [split]
    simp
  subst other
  have rest : (mapArray.erase key).entries = before ++ after := erased
  constructor
  · rw [split,rest]
    simp [Nat.add_assoc]
  · simp only [ringBytes]
    rw [split,rest]
    simp only [List.map_append,List.map_cons,List.sum_append,List.sum_cons]
    omega

theorem insert_fresh {mapArray : AList fun _ : Text => Stream} {key : Text} (absent : mapArray.lookup key = none)
    (stream : Stream) :
    (mapArray.insert key stream).entries.length = mapArray.entries.length + 1 ∧
      ringBytes (mapArray.insert key stream) = ringBytes mapArray + stream.ring.dataSize := by
  have outside : key ∉ mapArray := AList.lookup_eq_none.mp absent
  constructor
  · rw [AList.entries_insert_of_notMem outside]
    rfl
  · simp only [ringBytes]
    rw [AList.entries_insert_of_notMem outside,List.map_cons,List.sum_cons,Int.add_comm]

theorem insert_same {mapArray : AList fun _ : Text => Stream} {key : Text} {stream next : Stream}
    (found : mapArray.lookup key = some stream) (sized : next.ring.dataSize = stream.ring.dataSize) :
    (mapArray.insert key next).entries.length = mapArray.entries.length ∧
      ringBytes (mapArray.insert key next) = ringBytes mapArray := by
  obtain ⟨count,bytes⟩ := erase_split found
  have entries : (mapArray.insert key next).entries = ⟨key,next⟩::(mapArray.erase key).entries := AList.entries_insert
  constructor
  · rw [entries,List.length_cons,count]
  · rw [bytes]
    simp only [ringBytes]
    rw [entries,List.map_cons,List.sum_cons,sized,Int.add_comm]

theorem intendedSize_default (maxBitrateKbps latencyMs : Int) :
    (defaultMaxDataSize : Int) ≤ intendedSize maxBitrateKbps latencyMs := by
  unfold intendedSize
  dsimp only
  split
  · generalize (if maxRingBytes < _ then maxRingBytes else _) = targetBytes
    split
    · rename_i larger
      exact Int.le_of_lt larger
    · exact Int.le_refl _
  · exact Int.le_refl _

theorem allocate_dataSize (maxBitrateKbps latencyMs : Int) (made grown : Nat) (now : Int) :
    ((allocate (intendedSize maxBitrateKbps latencyMs) made grown now).dataSize : Int) =
      intendedSize maxBitrateKbps latencyMs := by
  have floor := intendedSize_default maxBitrateKbps latencyMs
  unfold allocate
  dsimp only
  split
  · apply Int.toNat_of_nonneg
    exact Int.le_trans (Int.natCast_nonneg _) floor
  · rename_i small
    exact Int.le_antisymm floor (Int.not_lt.mp small)

theorem State.add_cases (scanners : Scanners Cc Tc) (s : State Cc Tc) (key : Text) (maxBitrateKbps latencyMs : Int)
    (made grown : Nat) (now : Int) :
    (s.add scanners key maxBitrateKbps latencyMs made grown now).2 = s ∨
      s.mapArray.lookup key = none ∧ (0 < s.maxStreams → s.streamCount < s.maxStreams) ∧
      (0 < s.maxTotalRingBytes → s.totalRingBytes + intendedSize maxBitrateKbps latencyMs ≤ s.maxTotalRingBytes) ∧
      (s.add scanners key maxBitrateKbps latencyMs made grown now).2 = {s with
        mapArray := s.mapArray.insert key ⟨allocate (intendedSize maxBitrateKbps latencyMs) made grown now,0⟩
        streamCount := s.streamCount + 1
        totalRingBytes := s.totalRingBytes + intendedSize maxBitrateKbps latencyMs
        mapCcState := match s.mapCcState.lookup key with
          | some _ => s.mapCcState
          | none => s.mapCcState.insert key scanners.initCc} := by
  unfold State.add
  cases absent : s.mapArray.lookup key with
  | some stream => exact Or.inl rfl
  | none =>
    dsimp only
    split
    · exact Or.inl rfl
    · rename_i room
      split
      · exact Or.inl rfl
      · rename_i memory
        rw [allocate_dataSize]
        refine Or.inr ⟨rfl,?_,?_,rfl⟩
        · intro capped
          exact Int.not_le.mp fun full => room ⟨capped,full⟩
        · intro capped
          exact Int.not_lt.mp fun beyond => memory ⟨capped,beyond⟩

section Operations

variable {maxStreams maxTotalRingBytes : Int} {s : State Cc Tc}

theorem State.start_balanced (maxStreams maxTotalRingBytes : Int) :
    Balanced maxStreams maxTotalRingBytes ((State.start : State Cc Tc).setCaps maxStreams maxTotalRingBytes) where
  caps := ⟨rfl,rfl⟩
  count := rfl
  bytes := rfl
  countCap := Int.le_of_lt
  bytesCap := Int.le_of_lt
  states := fun _ => Iff.rfl

theorem Balanced.add (balanced : Balanced maxStreams maxTotalRingBytes s) (scanners : Scanners Cc Tc) (key : Text)
    (maxBitrateKbps latencyMs : Int) (made grown : Nat) (now : Int) :
    Balanced maxStreams maxTotalRingBytes (s.add scanners key maxBitrateKbps latencyMs made grown now).2 := by
  obtain ⟨capStreams,capBytes⟩ := balanced.caps
  rcases s.add_cases scanners key maxBitrateKbps latencyMs made grown now with same | ⟨absent,room,memory,added⟩
  · rw [same]
    exact balanced
  · rw [added]
    obtain ⟨count,bytes⟩ := insert_fresh absent ⟨allocate (intendedSize maxBitrateKbps latencyMs) made grown now,0⟩
    have outside : key ∉ s.mapCcState := fun member => AList.lookup_eq_none.mp absent ((balanced.states key).mp member)
    constructor
    · exact balanced.caps
    · change s.streamCount + 1 = _
      rw [count,balanced.count]
      rfl
    · change s.totalRingBytes + _ = _
      rw [bytes,balanced.bytes,allocate_dataSize]
    · intro capped
      rw [← capStreams] at capped ⊢
      exact room capped
    · intro capped
      rw [← capBytes] at capped ⊢
      exact memory capped
    · intro other
      dsimp only
      rw [AList.lookup_eq_none.mpr outside]
      dsimp only
      rw [AList.mem_insert,AList.mem_insert,balanced.states other]

theorem Balanced.remove (balanced : Balanced maxStreams maxTotalRingBytes s) (key : Text) :
    Balanced maxStreams maxTotalRingBytes (s.remove key).2 := by
  unfold State.remove
  dsimp only
  cases found : s.mapArray.lookup key with
  | none =>
    have outside : key ∉ s.mapArray := AList.lookup_eq_none.mp found
    refine ⟨balanced.caps,balanced.count,balanced.bytes,balanced.countCap,balanced.bytesCap,?_⟩
    intro other
    dsimp only
    rw [AList.mem_erase,balanced.states other]
    constructor
    · exact fun erased => erased.2
    · intro member
      exact ⟨fun same => outside (same ▸ member),member⟩
  | some stream =>
    obtain ⟨count,bytes⟩ := erase_split found
    have counted := balanced.count
    have summed := balanced.bytes
    constructor
    · exact balanced.caps
    · change s.streamCount - 1 = _
      rw [counted,count]
      simp
    · change s.totalRingBytes - stream.ring.dataSize = ringBytes (s.mapArray.erase key)
      rw [summed,bytes]
      omega
    · intro capped
      have below := balanced.countCap capped
      change s.streamCount - 1 ≤ _
      omega
    · intro capped
      have below := balanced.bytesCap capped
      change s.totalRingBytes - _ ≤ _
      omega
    · intro other
      dsimp only
      rw [AList.mem_erase,AList.mem_erase,balanced.states other]

theorem foldl_count {α : Type} (entries : List α) (start : Int) :
    entries.foldl (fun count _ => count - 1) start = start - entries.length := by
  induction entries generalizing start with
  | nil => simp
  | cons entry rest ih =>
    rw [List.foldl_cons,ih]
    simp only [List.length_cons,Nat.cast_add,Nat.cast_one]
    omega

theorem foldl_bytes {α : Type} (size : α → Int) (entries : List α) (start : Int) :
    entries.foldl (fun bytes entry => bytes - size entry) start = start - (entries.map size).sum := by
  induction entries generalizing start with
  | nil => simp
  | cons entry rest ih =>
    rw [List.foldl_cons,ih,List.map_cons,List.sum_cons]
    omega

theorem Balanced.clear (balanced : Balanced maxStreams maxTotalRingBytes s) :
    Balanced maxStreams maxTotalRingBytes s.clear := by
  have count : s.clear.streamCount = 0 := by
    change s.mapArray.entries.foldl _ _ = 0
    rw [foldl_count,balanced.count]
    omega
  have bytes : s.clear.totalRingBytes = 0 := by
    change s.mapArray.entries.foldl _ _ = 0
    rw [foldl_bytes fun entry : Sigma fun _ : Text => Stream => (entry.2.ring.dataSize : Int),balanced.bytes,ringBytes]
    omega
  constructor
  · exact balanced.caps
  · exact count
  · exact bytes
  · intro capped
    rw [count]
    exact Int.le_of_lt capped
  · intro capped
    rw [bytes]
    exact Int.le_of_lt capped
  · exact fun _ => Iff.rfl

theorem put_dataSize (ring : Ring) (data : List UInt8) : (RecycleArray.put ring data).1.dataSize = ring.dataSize := by
  unfold RecycleArray.put
  split
  · rfl
  · split <;> rfl

theorem get_dataSize (ring : Ring) (size : Nat) (reader : ReadID) (aligned : Nat) (now : Int) :
    (RecycleArray.get ring size reader aligned now).1.dataSize = ring.dataSize := by
  unfold RecycleArray.get
  dsimp only
  split
  · rfl
  · split
    · rfl
    · split
      · rfl
      · split <;> rfl

theorem mem_insert_present {Value : Type} {map : AList fun _ : Text => Value} {key : Text} (present : key ∈ map) {value : Value}
    {other : Text} : other ∈ map.insert key value ↔ other ∈ map := by
  rw [AList.mem_insert]
  constructor
  · intro member
    rcases member with rfl | member
    · exact present
    · exact member
  · exact Or.inr

theorem Balanced.replace (balanced : Balanced maxStreams maxTotalRingBytes s) {key : Text} {stream next : Stream}
    (found : s.mapArray.lookup key = some stream) (sized : next.ring.dataSize = stream.ring.dataSize)
    {mapCcState : AList fun _ : Text => Cc} {mapTcState : AList fun _ : Text => Tc}
    (kept : ∀ other, other ∈ mapCcState ↔ other ∈ s.mapCcState) :
    Balanced maxStreams maxTotalRingBytes {s with
      mapArray := s.mapArray.insert key next
      mapCcState := mapCcState
      mapTcState := mapTcState} := by
  obtain ⟨count,bytes⟩ := insert_same found sized
  have present : key ∈ s.mapArray := AList.lookup_isSome.mp (by rw [found]; rfl)
  constructor
  · exact balanced.caps
  · dsimp only
    rw [count]
    exact balanced.count
  · dsimp only
    rw [bytes]
    exact balanced.bytes
  · exact balanced.countCap
  · exact balanced.bytesCap
  · intro other
    dsimp only
    rw [kept other,mem_insert_present present,balanced.states other]

theorem Balanced.put (balanced : Balanced maxStreams maxTotalRingBytes s) (scanners : Scanners Cc Tc) (key : Text)
    (data : List UInt8) : Balanced maxStreams maxTotalRingBytes (s.put scanners key data).2.2 := by
  unfold State.put
  cases found : s.mapArray.lookup key with
  | none => exact balanced
  | some stream =>
    dsimp only
    apply balanced.replace found
    · exact put_dataSize stream.ring data
    · intro other
      cases checked : s.mapCcState.lookup key with
      | none => exact Iff.rfl
      | some cc =>
        have present : key ∈ s.mapCcState := AList.lookup_isSome.mp (by rw [checked]; rfl)
        exact mem_insert_present present

theorem Balanced.get (balanced : Balanced maxStreams maxTotalRingBytes s) (key : Text) (size : Nat) (reader : ReadID)
    (aligned : Nat) (now : Int) : Balanced maxStreams maxTotalRingBytes (s.get key size reader aligned now).2 := by
  unfold State.get
  cases found : s.mapArray.lookup key with
  | none => exact balanced
  | some stream =>
    dsimp only
    apply balanced.replace found
    · exact get_dataSize stream.ring size reader aligned now
    · exact fun _ => Iff.rfl

theorem Balanced.setTimecodeScan (balanced : Balanced maxStreams maxTotalRingBytes s) (scanners : Scanners Cc Tc)
    (key : Option Text) (enabled : Bool) :
    Balanced maxStreams maxTotalRingBytes (s.setTimecodeScan scanners key enabled) := by
  obtain ⟨caps,count,bytes,countCap,bytesCap,states⟩ := balanced
  unfold State.setTimecodeScan
  split
  · exact ⟨caps,count,bytes,countCap,bytesCap,states⟩
  · split
    · exact ⟨caps,count,bytes,countCap,bytesCap,states⟩
    · split <;> exact ⟨caps,count,bytes,countCap,bytesCap,states⟩

end Operations

theorem streams_balanced (scanners : Scanners Cc Tc) (maxStreams maxTotalRingBytes : Int) :
    (streams scanners).Keeps (fun _ _ => True) (Balanced maxStreams maxTotalRingBytes) := by
  intro s call next balanced _ stepped
  change s.step scanners call = some next at stepped
  cases call with
  | add key maxBitrateKbps latencyMs made grown now =>
    cases stepped
    exact balanced.add scanners key maxBitrateKbps latencyMs made grown now
  | remove key =>
    cases stepped
    exact balanced.remove key
  | clear =>
    cases stepped
    exact balanced.clear
  | put key data =>
    cases stepped
    exact balanced.put scanners key data
  | get key size reader aligned now =>
    cases stepped
    exact balanced.get key size reader aligned now
  | setTimecodeScan key enabled =>
    cases stepped
    exact balanced.setTimecodeScan scanners key enabled

theorem State.add_refused (scanners : Scanners Cc Tc) (s : State Cc Tc) (key : Text) (maxBitrateKbps latencyMs : Int)
    (made grown : Nat) (now : Int)
    (refused : (s.add scanners key maxBitrateKbps latencyMs made grown now).1 = false) :
    (s.add scanners key maxBitrateKbps latencyMs made grown now).2 = s := by
  unfold State.add at refused ⊢
  split
  · rfl
  · rename_i absent
    rw [absent] at refused
    dsimp only at refused ⊢
    split
    · rfl
    · rename_i room
      rw [if_neg room] at refused
      split
      · rfl
      · rename_i memory
        rw [if_neg memory] at refused
        cases refused

theorem State.add_existing (scanners : Scanners Cc Tc) {s : State Cc Tc} {key : Text} (present : key ∈ s.mapArray)
    (maxBitrateKbps latencyMs : Int) (made grown : Nat) (now : Int) :
    s.add scanners key maxBitrateKbps latencyMs made grown now = (true,s) := by
  obtain ⟨stream,found⟩ := Option.isSome_iff_exists.mp (AList.lookup_isSome.mpr present)
  unfold State.add
  rw [found]

/-- After `set_caps` and any calls the budget is that of the rings there are and
within its caps; a refused `add` and an `add` of an existing key change nothing. -/
theorem ring_budget (scanners : Scanners Cc Tc) (maxStreams maxTotalRingBytes : Int) (calls : List Call)
    (s : State Cc Tc) (ran : (streams scanners).run (State.start.setCaps maxStreams maxTotalRingBytes) calls = some s) :
    Balanced maxStreams maxTotalRingBytes s ∧
      ∀ key maxBitrateKbps latencyMs made grown now,
        ((s.add scanners key maxBitrateKbps latencyMs made grown now).1 = false →
          (s.add scanners key maxBitrateKbps latencyMs made grown now).2 = s) ∧
        (key ∈ s.mapArray → s.add scanners key maxBitrateKbps latencyMs made grown now = (true,s)) := by
  constructor
  · exact (streams_balanced scanners maxStreams maxTotalRingBytes).run_all
      (State.start_balanced maxStreams maxTotalRingBytes) ran
  · intro key maxBitrateKbps latencyMs made grown now
    constructor
    · exact s.add_refused scanners key maxBitrateKbps latencyMs made grown now
    · exact fun present => State.add_existing scanners present maxBitrateKbps latencyMs made grown now

/-- The scanners of a server that counts and reads nothing. -/
def unscanned : Scanners Unit Unit := ⟨(),fun _ _ => (0,()),(),fun _ _ => ()⟩

theorem ring_budget_one_stream :
    let first := ((State.start.setCaps 1 0).add unscanned (ascii "live/a") 4000 2000 1 2 0).2
    Balanced 1 0 (first.add unscanned (ascii "live/b") 0 0 3 4 0).2 :=
  (ring_budget unscanned 1 0 [.add (ascii "live/a") 4000 2000 1 2 0,.add (ascii "live/b") 0 0 3 4 0] _ rfl).1

end SrtLiveServer.MapData
