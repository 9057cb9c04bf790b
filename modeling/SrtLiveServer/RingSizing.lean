import Mathlib.Data.List.Infix
import SrtLiveServer.MapData
import SrtLiveServer.RingReaders

/-! Whether the ring that `CSLSMapData::add` allocates for a bitrate and a latency is as
large as its sizing promises: a reader that is never more than one latency window behind
should never be resynced. -/
namespace SrtLiveServer.RingSizing
open Bytes RecycleArray MapData

/-- One latency window of data, `max_bitrate_kbps * 125 * latency_ms / 1000` bytes. -/
def latencyWindow (maxBitrateKbps latencyMs : Int) : Int := maxBitrateKbps * 125 * latencyMs / 1000

/-- The readers of a newly allocated ring; none has read from it yet. -/
def holding (ring : Ring) : World where
  rings := Function.update (fun generation => create generation 0) ring.generation ring
  current := ring.generation
  nextGeneration := ring.generation + 1
  readers := fun _ => .fresh
  stream := fun _ => []
  anchor := fun _ => 0
  received := fun _ => []

def Op.isTraffic : Op → Bool
  | .put _ | .get _ _ _ _ => true
  | _ => false

def after (ring : Ring) (ops : List Op) : World := ops.foldl World.step (holding ring)

/-- No get of a reader counts an overrun, in any traffic in which that reader's unread
backlog never exceeds `bound`. -/
def Absorbs (ring : Ring) (bound : Int) : Prop :=
  ∀ ops r, (∀ op ∈ ops, Op.isTraffic op = true) → (∀ past, past <+: ops → ((after ring past).lag r : Int) ≤ bound) →
    ∀ past size aligned now, past ++ [.get r size aligned now] <+: ops →
      ((after ring past).getResult r size aligned now).1.overrunCount = (after ring past).ring.overrunCount

theorem holding_ring (ring : Ring) : (holding ring).ring = ring := Function.update_self ..

theorem holding_rings (ring : Ring) (g : Nat) :
    g = ring.generation ∧ (holding ring).rings g = ring ∨ (holding ring).rings g = create g 0 := by
  by_cases own : g = ring.generation
  · subst own
    exact Or.inl ⟨rfl,Function.update_self ..⟩
  · exact Or.inr (Function.update_of_ne own ..)

theorem holding_consistent {ring : Ring} (counted : Counted ring []) : (holding ring).Consistent where
  live := Nat.lt_succ_self _
  identity := fun g => by
    rcases holding_rings ring g with ⟨own,same⟩ | other
    · rw [same,own]
    · rw [other]
      rfl
  incarnations := fun g => by
    rcases holding_rings ring g with ⟨_,same⟩ | other
    · rw [same]
      exact counted
    · rw [other]
      exact create_counted g 0
  unwritten := fun _ _ => rfl
  known := fun _ => Nat.succ_pos _
  unanchored := fun _ _ => rfl
  readers := fun _ anchored => absurd anchored Bool.noConfusion

theorem step_dataSize (w : World) {op : Op} (traffic : Op.isTraffic op = true) :
    (w.step op).ring.dataSize = w.ring.dataSize := by
  cases op with
  | put data =>
    have sized := put_dataSize w.ring data
    dsimp only [World.step]
    cases written : put w.ring data with
    | mk ring ret =>
      rw [written] at sized
      cases ret with
      | none => rfl
      | some len => simpa [World.ring] using sized
  | get r size aligned now =>
    have sized := get_dataSize w.ring size (w.readers r) aligned now
    simpa [World.step,World.ring,World.getResult] using sized
  | setSize n => cases traffic
  | recreate now => cases traffic
  | otherRing => cases traffic

theorem after_dataSize (ring : Ring) (ops : List Op) (traffic : ∀ op ∈ ops, Op.isTraffic op = true) :
    (after ring ops).ring.dataSize = ring.dataSize := by
  have start : (holding ring).ring.dataSize = ring.dataSize := by rw [holding_ring]
  refine List.foldlRecOn (motive := fun w : World => w.ring.dataSize = ring.dataSize) ops World.step start ?_
  intro w same op member
  rw [step_dataSize w (traffic op member)]
  exact same

theorem after_consistent {ring : Ring} (counted : Counted ring []) (ops : List Op) : (after ring ops).Consistent :=
  List.foldlRecOn ops World.step (holding_consistent counted) fun _ consistent op _ => consistent.step op

section Lapped

variable (ring : Ring)

/-- A reader anchors, the ring is filled once, and the reader comes back. -/
def lapping : List Op := [.get 0 0 0 0,.put (List.replicate ring.dataSize 0),.get 0 0 0 0]

theorem anchored_once :
    (after ring [.get 0 0 0 0]).ring = ring ∧ (after ring [.get 0 0 0 0]).current = ring.generation ∧
      (after ring [.get 0 0 0 0]).readers 0 = ⟨ring.writePos,ring.dataCount,false,ring.generation⟩ ∧
      (after ring [.get 0 0 0 0]).stream = fun _ => [] := by
  have result : (holding ring).getResult 0 0 0 0 = (ring,⟨ring.writePos,ring.dataCount,false,ring.generation⟩,[]) := by
    rw [World.getResult,holding_ring]
    exact get_anchor ring 0 .fresh 0 0 (Or.inl rfl)
  refine ⟨?_,rfl,?_,rfl⟩
  · show Function.update (holding ring).rings ring.generation ((holding ring).getResult 0 0 0 0).1 ring.generation = ring
    rw [Function.update_self,result]
  · show Function.update (holding ring).readers 0 ((holding ring).getResult 0 0 0 0).2.1 0 = _
    rw [Function.update_self,result]

theorem filled_once {ring : Ring} (positive : 0 < ring.dataSize) :
    let filled := after ring [.get 0 0 0 0,.put (List.replicate ring.dataSize 0)]
    filled.readers 0 = ⟨ring.writePos,ring.dataCount,false,ring.generation⟩ ∧ filled.current = ring.generation ∧
      filled.stream = Function.update (fun _ => []) ring.generation (List.replicate ring.dataSize 0) := by
  obtain ⟨same,current,reader,stream⟩ := anchored_once ring
  have step : after ring [.get 0 0 0 0,.put (List.replicate ring.dataSize 0)] =
      (after ring [.get 0 0 0 0]).step (.put (List.replicate ring.dataSize 0)) := rfl
  dsimp only
  rw [step]
  generalize after ring [.get 0 0 0 0] = w at same current reader stream
  have fits : put w.ring (List.replicate ring.dataSize 0) =
      (putCount (putCopy ring (List.replicate ring.dataSize 0)) (List.replicate ring.dataSize (0 : UInt8)).length,
        some (List.replicate ring.dataSize (0 : UInt8)).length) := by
    rw [same]
    unfold put
    rw [List.length_replicate,if_neg (by omega),if_neg (by omega)]
  dsimp only [World.step]
  rw [fits]
  refine ⟨reader,current,?_⟩
  rw [current,stream]
  rfl

theorem lapping_lag {ring : Ring} (positive : 0 < ring.dataSize) {past : List Op} (inside : past <+: lapping ring) (r : Nat) :
    (after ring past).lag r ≤ ring.dataSize := by
  have short : ∀ g, ((after ring past).stream g).length ≤ ring.dataSize := by
    intro g
    have stream := (filled_once positive).2.2
    have member := (List.mem_inits past (lapping ring)).mpr inside
    simp only [lapping,List.inits,List.map_cons,List.map_nil,List.mem_cons,List.not_mem_nil,or_false] at member
    have full : (Function.update (fun _ => []) ring.generation (List.replicate ring.dataSize (0 : UInt8)) g).length ≤
        ring.dataSize := by
      by_cases own : g = ring.generation
      · subst own
        rw [Function.update_self,List.length_replicate]
      · rw [Function.update_of_ne own]
        exact Nat.zero_le _
    rcases member with rfl | rfl | rfl | rfl
    · exact Nat.zero_le _
    · rw [(anchored_once ring).2.2.2]
      exact Nat.zero_le _
    · rw [stream]
      exact full
    · show ((after ring [.get 0 0 0 0,.put (List.replicate ring.dataSize 0)]).stream g).length ≤ _
      rw [stream]
      exact full
  exact Nat.le_trans (Nat.sub_le _ _) (short _)

end Lapped

/-- A backlog of exactly the ring's size is already an overrun, so the ring absorbs what is
less than its size. -/
theorem absorbs_iff {ring : Ring} (counted : Counted ring []) (bound : Int) :
    Absorbs ring bound ↔ bound < ring.dataSize := by
  constructor
  · intro absorbs
    by_contra large
    have positive := counted.positive
    have traffic : ∀ op ∈ lapping ring, Op.isTraffic op = true := by simp [lapping,Op.isTraffic]
    have kept := absorbs (lapping ring) 0 traffic
      (fun past inside => by have := lapping_lag positive inside 0; omega)
      [.get 0 0 0 0,.put (List.replicate ring.dataSize 0)] 0 0 0 (List.prefix_refl _)
    have consistent := after_consistent counted [.get 0 0 0 0,.put (List.replicate ring.dataSize 0)]
    have sized := after_dataSize ring [.get 0 0 0 0,.put (List.replicate ring.dataSize 0)] (by simp [Op.isTraffic])
    obtain ⟨reader,current,stream⟩ := filled_once positive
    have empty : ring.dataCount = 0 := counted.counted
    have lapped := (consistent.overrun_iff 0 0 0 0).mpr (by
      refine ⟨by rw [reader],by rw [reader,current],?_⟩
      rw [World.lag,reader,stream,Function.update_self,List.length_replicate,sized,empty]
      exact Nat.le_refl _)
    omega
  · intro small ops r traffic behind past size aligned now inside
    have consistent := after_consistent counted past
    have part : past <+: ops := (List.prefix_append past _).trans inside
    have sized := after_dataSize ring past fun op member => traffic op (part.subset member)
    have lag := behind past part
    by_contra raised
    have overrun : ((after ring past).getResult r size aligned now).1.overrunCount =
        (after ring past).ring.overrunCount + 1 := by
      rcases consistent.get_cases r size aligned now with ⟨_,result⟩ | ⟨_,_,_,result⟩ | ⟨_,_,_,_,_,result⟩
      · exact absurd (by rw [result]) raised
      · rw [result]
      · exact absurd (by rw [result]) raised
    have lapped := ((consistent.overrun_iff r size aligned now).mp overrun).2.2
    omega

theorem allocate_counted (intended : Int) (made grown : Nat) (now : Int) : Counted (allocate intended made grown now) [] := by
  unfold allocate
  dsimp only
  split
  · rename_i larger
    have positive : 0 < intended.toNat := by omega
    exact setSize_counted (create made now) ⟨intended.toNat,positive⟩ grown
  · exact create_counted made now

/-- Whole seconds of the latency are counted, but at least one. -/
theorem latencyWindow_lt_iff {maxBitrateKbps latencyMs : Int} (bitrate : 1 ≤ maxBitrateKbps) (latency : 1 ≤ latencyMs)
    (below : latencyWindow maxBitrateKbps latencyMs < maxRingBytes) :
    latencyWindow maxBitrateKbps latencyMs < intendedSize maxBitrateKbps latencyMs ↔
      latencyMs < 1000 ∨ latencyWindow maxBitrateKbps latencyMs < defaultMaxDataSize := by
  have floor : (defaultMaxDataSize : Int) = 8388608 := rfl
  have ceiling : maxRingBytes = 33554432 := rfl
  have bytesPerSec : maxBitrateKbps * 1000 / 8 = maxBitrateKbps * 125 := by omega
  unfold intendedSize
  dsimp only
  rw [if_pos (by omega),bytesPerSec]
  unfold latencyWindow at below ⊢
  by_cases short : latencyMs < 1000
  · have second : latencyMs / 1000 < 1 := by omega
    have part : maxBitrateKbps * 125 * latencyMs ≤ maxBitrateKbps * 125 * 999 :=
      Int.mul_le_mul_of_nonneg_left (by omega) (by omega)
    rw [if_pos second,Int.mul_one]
    refine ⟨fun _ => Or.inl short,fun _ => ?_⟩
    generalize maxBitrateKbps * 125 * latencyMs = window at part below ⊢
    split <;> split <;> omega
  · have whole : ¬ latencyMs / 1000 < 1 := by omega
    have part : maxBitrateKbps * 125 * (latencyMs / 1000 * 1000) ≤ maxBitrateKbps * 125 * latencyMs :=
      Int.mul_le_mul_of_nonneg_left (by omega) (by omega)
    rw [← Int.mul_assoc] at part
    rw [if_neg whole,or_iff_right short]
    generalize maxBitrateKbps * 125 * latencyMs = window at part below ⊢
    generalize maxBitrateKbps * 125 * (latencyMs / 1000) = target at part ⊢
    split <;> split <;> omega

variable {Cc Tc : Type}

/-- The ring of a stream absorbs one latency window exactly if the latency is below one
second, or the window is smaller than the default ring. -/
theorem ring_absorbs_latency_window_iff (scanners : Scanners Cc Tc) (s : State Cc Tc) (key : Text)
    (maxBitrateKbps latencyMs : Int) (made grown : Nat) (now : Int) (bitrate : 1 ≤ maxBitrateKbps) (latency : 1 ≤ latencyMs)
    (below : latencyWindow maxBitrateKbps latencyMs < maxRingBytes) (absent : s.mapArray.lookup key = none) (stream : Stream)
    (added : (s.add scanners key maxBitrateKbps latencyMs made grown now).2.mapArray.lookup key = some stream) :
    Absorbs stream.ring (latencyWindow maxBitrateKbps latencyMs) ↔
      latencyMs < 1000 ∨ latencyWindow maxBitrateKbps latencyMs < defaultMaxDataSize := by
  have allocated : stream.ring = allocate (intendedSize maxBitrateKbps latencyMs) made grown now := by
    rcases s.add_cases scanners key maxBitrateKbps latencyMs made grown now with kept | ⟨_,_,_,next⟩
    · rw [kept,absent] at added
      cases added
    · rw [next] at added
      rw [AList.lookup_insert] at added
      cases added
      rfl
  rw [allocated,absorbs_iff (allocate_counted _ made grown now),allocate_dataSize]
  exact latencyWindow_lt_iff bitrate latency below

theorem uncapped_added (scanners : Scanners Cc Tc) (key : Text) (maxBitrateKbps latencyMs : Int) (made grown : Nat) (now : Int) :
    (State.start.add scanners key maxBitrateKbps latencyMs made grown now).2.mapArray.lookup key =
      some ⟨allocate (intendedSize maxBitrateKbps latencyMs) made grown now,0⟩ := by
  have absent : (State.start : State Cc Tc).mapArray.lookup key = none := AList.lookup_empty key
  unfold State.add
  rw [absent]
  dsimp only
  rw [if_neg (fun capped => absurd capped.1 (Int.lt_irrefl 0)),if_neg (fun capped => absurd capped.1 (Int.lt_irrefl 0))]
  exact AList.lookup_insert _

theorem ring_absorbs_latency_window_iff_short :
    Absorbs (allocate (intendedSize 100000 120) 1 2 0) (latencyWindow 100000 120) := by
  have added := uncapped_added unscanned (ascii "a/b/c") 100000 120 1 2 0
  have absent : (State.start : State Unit Unit).mapArray.lookup (ascii "a/b/c") = none := AList.lookup_empty _
  have below : latencyWindow 100000 120 < maxRingBytes := by
    simp only [latencyWindow,maxRingBytes]
    omega
  generalize allocate (intendedSize 100000 120) 1 2 0 = ring at added ⊢
  exact (ring_absorbs_latency_window_iff unscanned State.start (ascii "a/b/c") 100000 120 1 2 0 (by omega) (by omega) below
    absent ⟨ring,0⟩ added).mpr (Or.inl (by omega))

/-- At 100 Mbps and two seconds the ring is exactly as large as the window. -/
theorem latency_window_overruns_ring :
    ¬ ∀ (scanners : Scanners Unit Unit) (s : State Unit Unit) (key : Text) (maxBitrateKbps latencyMs : Int) (made grown : Nat)
      (now : Int) (stream : Stream), 1 ≤ maxBitrateKbps → 1 ≤ latencyMs → latencyWindow maxBitrateKbps latencyMs < maxRingBytes →
      s.mapArray.lookup key = none →
      (s.add scanners key maxBitrateKbps latencyMs made grown now).2.mapArray.lookup key = some stream →
      Absorbs stream.ring (latencyWindow maxBitrateKbps latencyMs) := by
  intro claim
  have added := uncapped_added unscanned (ascii "a/b/c") 100000 2000 1 2 0
  have absent : (State.start : State Unit Unit).mapArray.lookup (ascii "a/b/c") = none := AList.lookup_empty _
  have below : latencyWindow 100000 2000 < maxRingBytes := by
    simp only [latencyWindow,maxRingBytes]
    omega
  have counted := allocate_counted (intendedSize 100000 2000) 1 2 0
  have sized := allocate_dataSize 100000 2000 1 2 0
  generalize allocate (intendedSize 100000 2000) 1 2 0 = ring at added counted sized
  have absorbs := claim unscanned State.start (ascii "a/b/c") 100000 2000 1 2 0 ⟨ring,0⟩ (by omega) (by omega) below
    absent added
  have larger := (absorbs_iff counted _).mp absorbs
  rw [sized] at larger
  have equal : latencyWindow 100000 2000 = intendedSize 100000 2000 := rfl
  omega

end SrtLiveServer.RingSizing
