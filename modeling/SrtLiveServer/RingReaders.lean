import SrtLiveServer.RecycleArray
import Mathlib.Logic.Function.Basic

/-! Any number of readers over the incarnations of one ring, with `put` and
`get` atomic. Incarnations are kept by generation: a replaced buffer stays in
the model as it was last written, so that a reader still anchored on it has a
meaning. The put stream, anchors and received bytes are ghost state. -/
namespace SrtLiveServer.RecycleArray
open Circular

abbrev Size : Type := {n : Nat // 0 < n}

inductive Op where
  | put (data : List UInt8)
  | setSize (n : Size)
  | recreate (now : Int)
  /-- Some other stream's ring draws from `s_next_generation`. -/
  | otherRing
  | get (reader size aligned : Nat) (now : Int)

structure World where
  rings : Nat → Ring
  current : Nat
  nextGeneration : Nat
  readers : Nat → ReadID
  stream : Nat → List UInt8
  /-- Stream offset of a reader's last (re-)anchoring. -/
  anchor : Nat → Nat
  /-- Bytes handed to a reader since its last (re-)anchoring. -/
  received : Nat → List UInt8

def World.start (now : Int) : World where
  rings := fun generation => create generation now
  current := 1
  nextGeneration := 2
  readers := fun _ => .fresh
  stream := fun _ => []
  anchor := fun _ => 0
  received := fun _ => []

def World.ring (w : World) : Ring := w.rings w.current

def World.replace (w : World) (ring : Nat → Ring) : World :=
  {w with
    rings := Function.update w.rings w.nextGeneration (ring w.nextGeneration)
    current := w.nextGeneration
    nextGeneration := w.nextGeneration + 1}

def World.getResult (w : World) (reader size aligned : Nat) (now : Int) : Ring × ReadID × List UInt8 :=
  get w.ring size (w.readers reader) aligned now

/-- The get anchors or re-anchors: a first read, another incarnation, or an overrun. -/
def World.Reanchors (w : World) (reader size aligned : Nat) (now : Int) : Prop :=
  (w.readers reader).first = true ∨ (w.readers reader).generation ≠ w.ring.generation ∨
    (w.getResult reader size aligned now).1.overrunCount ≠ w.ring.overrunCount

instance (w : World) (reader size aligned : Nat) (now : Int) :
    Decidable (w.Reanchors reader size aligned now) :=
  inferInstanceAs (Decidable (_ ∨ _ ∨ _))

def World.step (w : World) : Op → World
  | .put data =>
    match put w.ring data with
    | (_,none) => w
    | (ring,some _) =>
      {w with
        rings := Function.update w.rings w.current ring
        stream := Function.update w.stream w.current (w.stream w.current ++ data)}
  | .setSize n => w.replace (setSize w.ring n)
  | .recreate now => w.replace (create · now)
  | .otherRing => {w with nextGeneration := w.nextGeneration + 1}
  | .get reader size aligned now =>
    let result := w.getResult reader size aligned now
    let reanchors := w.Reanchors reader size aligned now
    {w with
      rings := Function.update w.rings w.current result.1
      readers := Function.update w.readers reader result.2.1
      anchor := Function.update w.anchor reader
        (if reanchors then (w.stream w.current).length else w.anchor reader)
      received := Function.update w.received reader
        (if reanchors then result.2.2 else w.received reader ++ result.2.2)}

def World.run (now : Int) (ops : List Op) : World := ops.foldl World.step (World.start now)

def World.lag (w : World) (reader : Nat) : Nat :=
  (w.stream (w.readers reader).generation).length - (w.readers reader).dataCount

structure Counted (ring : Ring) (stream : List UInt8) : Prop extends Represents ring stream where
  counted : ring.dataCount = stream.length

/-- An anchored reader stands at its own next stream offset, and what it
received is the stream from its anchor on. -/
structure Follows (ring : Ring) (stream : List UInt8) (reader : ReadID) (anchor : Nat)
    (received : List UInt8) : Prop where
  behind : reader.dataCount ≤ stream.length
  position : reader.readPos = reader.dataCount % ring.dataSize
  consumed : reader.dataCount = anchor + received.length
  contiguous : received = slice stream anchor received.length

theorem Follows.append {ring : Ring} {stream : List UInt8} {reader : ReadID} {anchor : Nat}
    {received : List UInt8} (follows : Follows ring stream reader anchor received) (next : Ring)
    (data : List UInt8) (size : next.dataSize = ring.dataSize) :
    Follows next (stream ++ data) reader anchor received := by
  refine ⟨?_,by rw [size]; exact follows.position,follows.consumed,?_⟩
  · have := follows.behind
    rw [List.length_append]
    omega
  · have inside : anchor + received.length ≤ stream.length := by
      rw [← follows.consumed]
      exact follows.behind
    rw [slice_append_left _ _ _ _ inside]
    exact follows.contiguous

theorem Follows.congr {ring : Ring} {stream : List UInt8} {reader : ReadID} {anchor : Nat}
    {received : List UInt8} (follows : Follows ring stream reader anchor received) (next : Ring)
    (size : next.dataSize = ring.dataSize) : Follows next stream reader anchor received :=
  ⟨follows.behind,by rw [size]; exact follows.position,follows.consumed,follows.contiguous⟩

theorem Counted.anchored {ring : Ring} {stream : List UInt8} (counted : Counted ring stream)
    (first : Bool) (generation : Nat) :
    Follows ring stream ⟨ring.writePos,ring.dataCount,first,generation⟩ stream.length [] :=
  ⟨by simp [counted.counted],by simp [counted.counted,counted.head],by simp [counted.counted],
    by simp [slice_zero]⟩

structure World.Consistent (w : World) : Prop where
  live : w.current < w.nextGeneration
  identity : ∀ g, (w.rings g).generation = g
  incarnations : ∀ g, Counted (w.rings g) (w.stream g)
  unwritten : ∀ g, w.nextGeneration ≤ g → w.stream g = []
  known : ∀ r, (w.readers r).generation < w.nextGeneration
  unanchored : ∀ r, (w.readers r).first = true → w.readers r = .fresh
  readers : ∀ r, (w.readers r).first = false →
    Follows (w.rings (w.readers r).generation) (w.stream (w.readers r).generation)
      (w.readers r) (w.anchor r) (w.received r)

theorem create_counted (generation : Nat) (now : Int) : Counted (create generation now) [] :=
  ⟨represents_empty _ (show 0 < defaultMaxDataSize by decide) List.length_replicate rfl,rfl⟩

theorem setSize_counted (ring : Ring) (n : Size) (generation : Nat) :
    Counted (setSize ring n generation) [] :=
  ⟨represents_empty _ n.property List.length_replicate rfl,rfl⟩

theorem World.start_consistent (now : Int) : (World.start now).Consistent where
  live := Nat.lt_succ_self 1
  identity := fun _ => rfl
  incarnations := fun g => create_counted g now
  unwritten := fun _ _ => rfl
  known := fun _ => Nat.zero_lt_two
  unanchored := fun _ _ => rfl
  readers := fun _ anchored => absurd anchored (by simp [World.start,ReadID.fresh])

theorem World.Consistent.replace {w : World} (consistent : w.Consistent) (ring : Nat → Ring)
    (identity : ∀ g, (ring g).generation = g) (fresh : ∀ g, Counted (ring g) []) :
    (w.replace ring).Consistent where
  live := Nat.lt_succ_self _
  identity := by
    intro g
    by_cases new : g = w.nextGeneration
    · subst g
      simp [World.replace,identity]
    · simp [World.replace,new,consistent.identity g]
  incarnations := by
    intro g
    by_cases new : g = w.nextGeneration
    · subst g
      simpa [World.replace,consistent.unwritten _ (Nat.le_refl _)] using fresh w.nextGeneration
    · simpa [World.replace,new] using consistent.incarnations g
  unwritten := fun g bound => consistent.unwritten g (Nat.le_of_succ_le bound)
  known := fun r => Nat.lt_succ_of_lt (consistent.known r)
  unanchored := consistent.unanchored
  readers := by
    intro r anchored
    have old : (w.readers r).generation ≠ w.nextGeneration := Nat.ne_of_lt (consistent.known r)
    simpa [World.replace,old] using consistent.readers r anchored

theorem World.Consistent.setRing {w : World} (consistent : w.Consistent) (ring : Ring) (data : List UInt8)
    (counted : Counted ring (w.stream w.current ++ data)) (identity : ring.generation = w.current)
    (sized : ring.dataSize = w.ring.dataSize) :
    World.Consistent {w with
      rings := Function.update w.rings w.current ring
      stream := Function.update w.stream w.current (w.stream w.current ++ data)} := by
  refine ⟨consistent.live,?_,?_,?_,consistent.known,consistent.unanchored,?_⟩
  · refine (Function.forall_update_iff w.rings fun g ring => ring.generation = g).mpr ⟨identity,?_⟩
    exact fun g _ => consistent.identity g
  · intro g
    by_cases same : g = w.current
    · subst g
      simpa using counted
    · simpa [same] using consistent.incarnations g
  · intro g bound
    have other : g ≠ w.current := by
      have := consistent.live
      change w.nextGeneration ≤ g at bound
      omega
    simpa [other] using consistent.unwritten g bound
  · intro r anchored
    have follows := consistent.readers r anchored
    by_cases same : (w.readers r).generation = w.current
    · rw [same] at follows
      simpa [same] using follows.append ring data sized
    · simpa [same] using follows

theorem World.Consistent.put {w : World} (consistent : w.Consistent) (data : List UInt8) :
    (w.step (.put data)).Consistent := by
  unfold World.step RecycleArray.put
  by_cases empty : data.length = 0
  · simpa [empty] using consistent
  by_cases oversized : w.ring.dataSize < data.length
  · simpa [empty,oversized] using consistent
  simp only [if_neg empty,if_neg oversized]
  have before : Counted w.ring (w.stream w.current) := consistent.incarnations w.current
  have after : Counted (putCount (putCopy w.ring data) data.length) (w.stream w.current ++ data) :=
    ⟨(before.toRepresents.putCopy data (Nat.le_of_not_lt oversized)).congr _ rfl rfl rfl,
      by simp [putCount,before.counted]⟩
  exact consistent.setRing _ data after (consistent.identity w.current) rfl

theorem World.Consistent.get_cases {w : World} (consistent : w.Consistent) (r size aligned : Nat) (now : Int) :
    (((w.readers r).first = true ∨ (w.readers r).generation ≠ w.current) ∧
      w.getResult r size aligned now = (w.ring,⟨w.ring.writePos,w.ring.dataCount,false,w.current⟩,[])) ∨
    ((w.readers r).first = false ∧ (w.readers r).generation = w.current ∧ w.ring.dataSize ≤ w.lag r ∧
      w.getResult r size aligned now =
        ({w.ring with overrunCount := w.ring.overrunCount + 1},
          ⟨w.ring.writePos,w.ring.dataCount,false,w.current⟩,[])) ∨
    ((w.readers r).first = false ∧ (w.readers r).generation = w.current ∧ w.lag r < w.ring.dataSize ∧
      ∃ backlog time, w.getResult r size aligned now =
        ({w.ring with maxReaderBacklog := backlog,lastReadTime := time},
          {w.readers r with
            readPos := ((w.readers r).dataCount + copyDataLen (w.lag r) size aligned) % w.ring.dataSize
            dataCount := (w.readers r).dataCount + copyDataLen (w.lag r) size aligned},
          slice (w.stream w.current) (w.readers r).dataCount (copyDataLen (w.lag r) size aligned))) := by
  have identity : w.ring.generation = w.current := consistent.identity w.current
  have counted : Counted w.ring (w.stream w.current) := consistent.incarnations w.current
  by_cases anchored : (w.readers r).first = false
  · by_cases same : (w.readers r).generation = w.current
    · have follows := consistent.readers r anchored
      rw [same] at follows
      have total : w.ring.dataCount = (w.stream w.current).length := counted.counted
      have behind := follows.behind
      have generation : (w.readers r).generation = w.ring.generation := same.trans identity.symm
      have lag : w.lag r = (w.stream w.current).length - (w.readers r).dataCount := by
        rw [World.lag,same]
      by_cases lapped : w.ring.dataSize ≤ w.lag r
      · refine Or.inr (Or.inl ⟨anchored,same,lapped,?_⟩)
        rw [World.getResult,get_overrun _ _ _ _ _ anchored generation counted.positive (by omega)]
        simp only [anchored,same]
      · refine Or.inr (Or.inr ⟨anchored,same,by omega,?_⟩)
        by_cases level : (w.readers r).dataCount = (w.stream w.current).length
        · -- nothing new: the reader stands at the head and the counters agree
          have none : copyDataLen (w.lag r) size aligned = 0 := by
            have := copyDataLen_le_ready (w.lag r) size aligned
            omega
          refine ⟨w.ring.maxReaderBacklog,w.ring.lastReadTime,?_⟩
          rw [World.getResult,get_level _ _ _ _ _ anchored generation
            (by rw [follows.position,level]; exact counted.head.symm) (by omega),none]
          simp only [Nat.add_zero,slice_zero]
          rw [← show (w.readers r).readPos = (w.readers r).dataCount % w.ring.dataSize from follows.position]
        · exact ⟨_,_,by
            rw [World.getResult,get_drain counted.toRepresents size (w.readers r) aligned now anchored
              generation follows.position (by omega) (by omega) (by omega) (by omega) (by omega),lag]⟩
    · exact Or.inl ⟨Or.inr same,by
        rw [World.getResult,get_anchor _ _ _ _ _ (Or.inr (by rw [identity]; exact same)),identity]⟩
  · have first : (w.readers r).first = true := by simpa using anchored
    exact Or.inl ⟨Or.inl first,by rw [World.getResult,get_anchor _ _ _ _ _ (Or.inl first),identity]⟩

theorem World.Consistent.get_reanchors {w : World} (consistent : w.Consistent) (r size aligned : Nat) (now : Int) :
    w.Reanchors r size aligned now ↔
      ((w.readers r).first = true ∨ (w.readers r).generation ≠ w.current ∨ w.ring.dataSize ≤ w.lag r) := by
  have identity : w.ring.generation = w.current := consistent.identity w.current
  unfold World.Reanchors
  rw [identity]
  rcases consistent.get_cases r size aligned now with
    ⟨stale,result⟩ | ⟨anchored,same,lapped,result⟩ | ⟨anchored,same,near,_,_,result⟩
  · exact ⟨fun _ => stale.imp_right Or.inl,fun _ => stale.imp_right Or.inl⟩
  · simp [result,anchored,same,lapped]
  · simp [result,anchored,same,near]

theorem World.Consistent.get_ring {w : World} (consistent : w.Consistent) (r size aligned : Nat) (now : Int) :
    Counted (w.getResult r size aligned now).1 (w.stream w.current) ∧
      (w.getResult r size aligned now).1.generation = w.current ∧
      (w.getResult r size aligned now).1.dataSize = w.ring.dataSize := by
  have counted : Counted w.ring (w.stream w.current) := consistent.incarnations w.current
  have identity : w.ring.generation = w.current := consistent.identity w.current
  rcases consistent.get_cases r size aligned now with
    ⟨_,result⟩ | ⟨_,_,_,result⟩ | ⟨_,_,_,_,_,result⟩
  · rw [result]
    exact ⟨counted,identity,rfl⟩
  · rw [result]
    exact ⟨⟨counted.toRepresents.congr _ rfl rfl rfl,counted.counted⟩,identity,rfl⟩
  · rw [result]
    exact ⟨⟨counted.toRepresents.congr _ rfl rfl rfl,counted.counted⟩,identity,rfl⟩

theorem World.Consistent.get_follows {w : World} (consistent : w.Consistent) (r size aligned : Nat) (now : Int) :
    let result := w.getResult r size aligned now
    result.2.1.first = false ∧ result.2.1.generation = w.current ∧
      Follows w.ring (w.stream w.current) result.2.1
        (if w.Reanchors r size aligned now then (w.stream w.current).length else w.anchor r)
        (if w.Reanchors r size aligned now then result.2.2 else w.received r ++ result.2.2) := by
  have counted : Counted w.ring (w.stream w.current) := consistent.incarnations w.current
  have reanchors := consistent.get_reanchors r size aligned now
  dsimp only
  rcases consistent.get_cases r size aligned now with
    ⟨stale,result⟩ | ⟨anchored,same,lapped,result⟩ | ⟨anchored,same,near,_,_,result⟩
  · have yes : w.Reanchors r size aligned now := reanchors.mpr (stale.imp_right Or.inl)
    rw [if_pos yes,if_pos yes,result]
    exact ⟨rfl,rfl,counted.anchored _ _⟩
  · have yes : w.Reanchors r size aligned now := reanchors.mpr (Or.inr (Or.inr lapped))
    rw [if_pos yes,if_pos yes,result]
    exact ⟨rfl,rfl,counted.anchored _ _⟩
  · have no : ¬ w.Reanchors r size aligned now := by
      rw [reanchors]
      simp [anchored,same,near]
    rw [if_neg no,if_neg no,result]
    have follows := consistent.readers r anchored
    rw [same] at follows
    have cut := copyDataLen_le_ready (w.lag r) size aligned
    have lag : w.lag r = (w.stream w.current).length - (w.readers r).dataCount := by rw [World.lag,same]
    have behind := follows.behind
    have size : (slice (w.stream w.current) (w.readers r).dataCount (copyDataLen (w.lag r) size aligned)).length =
        copyDataLen (w.lag r) size aligned := by simp; omega
    refine ⟨anchored,same,?_,rfl,?_,?_⟩
    · change (w.readers r).dataCount + copyDataLen (w.lag r) _ aligned ≤ _
      omega
    · change (w.readers r).dataCount + copyDataLen (w.lag r) _ aligned = _
      rw [List.length_append,size,follows.consumed,Nat.add_assoc]
    · rw [List.length_append,size,← slice_append,← follows.consumed,← follows.contiguous]

theorem World.Consistent.setReader {w : World} (consistent : w.Consistent) (r : Nat) (reader : ReadID) (anchor : Nat)
    (received : List UInt8) (anchored : reader.first = false) (generation : reader.generation = w.current)
    (follows : Follows w.ring (w.stream w.current) reader anchor received) :
    World.Consistent {w with
      readers := Function.update w.readers r reader
      anchor := Function.update w.anchor r anchor
      received := Function.update w.received r received} := by
  refine ⟨consistent.live,consistent.identity,consistent.incarnations,consistent.unwritten,?_,?_,?_⟩
  · refine (Function.forall_update_iff w.readers fun _ reader => reader.generation < w.nextGeneration).mpr ⟨?_,?_⟩
    · rw [generation]
      exact consistent.live
    · exact fun other _ => consistent.known other
  · refine (Function.forall_update_iff w.readers fun _ reader => reader.first = true → reader = .fresh).mpr ⟨?_,?_⟩
    · intro first
      rw [anchored] at first
      cases first
    · exact fun other _ => consistent.unanchored other
  · intro other read
    by_cases same : other = r
    · subst other
      simpa [generation,World.ring] using follows
    · simpa [same] using consistent.readers other (by simpa [same] using read)

theorem World.Consistent.get {w : World} (consistent : w.Consistent) (r size aligned : Nat) (now : Int) :
    (w.step (.get r size aligned now)).Consistent := by
  obtain ⟨counted,identity,sized⟩ := consistent.get_ring r size aligned now
  obtain ⟨anchored,generation,follows⟩ := consistent.get_follows r size aligned now
  have ringed := consistent.setRing (w.getResult r size aligned now).1 [] (by rwa [List.append_nil]) identity sized
  rw [List.append_nil,Function.update_eq_self] at ringed
  refine ringed.setReader r _ _ _ anchored generation (follows.congr _ ?_)
  simpa [World.ring] using sized

theorem World.Consistent.step {w : World} (consistent : w.Consistent) (op : Op) : (w.step op).Consistent := by
  cases op with
  | put data => exact consistent.put data
  | setSize n => exact consistent.replace _ (fun _ => rfl) (fun g => setSize_counted w.ring n g)
  | recreate now => exact consistent.replace _ (fun _ => rfl) (fun g => create_counted g now)
  | otherRing =>
    exact ⟨Nat.lt_succ_of_lt consistent.live,consistent.identity,consistent.incarnations,
      fun g bound => consistent.unwritten g (Nat.le_of_succ_le bound),
      fun r => Nat.lt_succ_of_lt (consistent.known r),consistent.unanchored,consistent.readers⟩
  | get r size aligned now => exact consistent.get r size aligned now

theorem World.run_consistent (now : Int) (ops : List Op) : (World.run now ops).Consistent :=
  List.foldlRecOn ops World.step (World.start_consistent now) fun _ consistent op _ => consistent.step op

theorem World.Consistent.overrun_iff {w : World} (consistent : w.Consistent) (r size aligned : Nat) (now : Int) :
    (w.getResult r size aligned now).1.overrunCount = w.ring.overrunCount + 1 ↔
      (w.readers r).first = false ∧ (w.readers r).generation = w.current ∧ w.ring.dataSize ≤ w.lag r := by
  rcases consistent.get_cases r size aligned now with
    ⟨stale,result⟩ | ⟨anchored,same,lapped,result⟩ | ⟨anchored,same,near,_,_,result⟩
  · rw [result]
    refine ⟨fun raised => absurd raised (by simp),?_⟩
    rintro ⟨anchored,same,_⟩
    rcases stale with first | other
    · exact absurd (first.symm.trans anchored) (by decide)
    · exact absurd same other
  · rw [result]
    exact ⟨fun _ => ⟨anchored,same,lapped⟩,fun _ => rfl⟩
  · rw [result]
    exact ⟨fun raised => absurd raised (by simp),fun ⟨_,_,lapped⟩ => absurd lapped (by omega)⟩

theorem World.Consistent.skip_iff {w : World} (consistent : w.Consistent) (r size aligned : Nat) (now : Int)
    (anchored : (w.readers r).first = false) :
    ¬ ((w.getResult r size aligned now).2.1.generation = (w.readers r).generation ∧
        (w.getResult r size aligned now).2.1.dataCount =
          (w.readers r).dataCount + (w.getResult r size aligned now).2.2.length) ↔
      (w.readers r).first = false ∧ (w.readers r).generation = w.current ∧ w.ring.dataSize ≤ w.lag r ∨
        (w.readers r).generation ≠ w.current := by
  have counted : Counted w.ring (w.stream w.current) := consistent.incarnations w.current
  rcases consistent.get_cases r size aligned now with
    ⟨stale,result⟩ | ⟨_,same,lapped,result⟩ | ⟨_,same,near,_,_,result⟩
  · have other := stale.resolve_left (by simp [anchored])
    rw [result]
    exact ⟨fun _ => Or.inr other,fun _ moved => other moved.1.symm⟩
  · have positive := counted.positive
    have total : w.ring.dataCount = (w.stream w.current).length := counted.counted
    have lag : w.lag r = (w.stream w.current).length - (w.readers r).dataCount := by rw [World.lag,same]
    rw [result]
    refine ⟨fun _ => Or.inl ⟨anchored,same,lapped⟩,?_⟩
    rintro _ ⟨_,moved⟩
    change w.ring.dataCount = (w.readers r).dataCount + 0 at moved
    omega
  · have follows := consistent.readers r anchored
    rw [same] at follows
    have behind := follows.behind
    have lag : w.lag r = (w.stream w.current).length - (w.readers r).dataCount := by rw [World.lag,same]
    have cut := copyDataLen_le_ready (w.lag r) size aligned
    have moved : (w.readers r).dataCount + copyDataLen (w.lag r) size aligned = (w.readers r).dataCount +
        (slice (w.stream w.current) (w.readers r).dataCount (copyDataLen (w.lag r) size aligned)).length := by
      rw [slice_length]
      omega
    rw [result]
    constructor
    · intro skipped
      exact absurd ⟨rfl,moved⟩ skipped
    · rintro (⟨_,_,lapped⟩ | other)
      · exact absurd lapped (by omega)
      · exact absurd same other

theorem World.put_taken (w : World) (data : List UInt8) (some : 1 ≤ data.length) (fits : data.length ≤ w.ring.dataSize) :
    (RecycleArray.put w.ring data).2 = .some data.length ∧
      (w.step (.put data)).stream w.current = w.stream w.current ++ data := by
  have taken : RecycleArray.put w.ring data = (putCount (putCopy w.ring data) data.length,.some data.length) := by
    unfold RecycleArray.put
    rw [if_neg (Nat.ne_of_gt some),if_neg (Nat.not_lt.mpr fits)]
  refine ⟨by rw [taken],?_⟩
  unfold World.step
  dsimp only
  rw [taken]
  exact Function.update_self _ _ _

theorem World.put_refused (w : World) (data : List UInt8) (outside : ¬ (1 ≤ data.length ∧ data.length ≤ w.ring.dataSize)) :
    (RecycleArray.put w.ring data).2 = none ∧ w.step (.put data) = w := by
  have refused : RecycleArray.put w.ring data = (w.ring,none) := by
    unfold RecycleArray.put
    split
    · rfl
    · rw [if_pos (by omega)]
  refine ⟨by rw [refused],?_⟩
  unfold World.step
  dsimp only
  rw [refused]

theorem World.Consistent.get_anchors {w : World} (consistent : w.Consistent) (r size aligned : Nat) (now : Int)
    (skips : (w.readers r).first = true ∨ (w.readers r).generation ≠ w.current ∨ w.ring.dataSize ≤ w.lag r) :
    (w.getResult r size aligned now).2 = (⟨w.ring.writePos,(w.stream w.current).length,false,w.current⟩,[]) := by
  have counted : Counted w.ring (w.stream w.current) := consistent.incarnations w.current
  rw [← counted.counted]
  rcases consistent.get_cases r size aligned now with
    ⟨_,result⟩ | ⟨_,_,_,result⟩ | ⟨anchored,same,near,_⟩
  · rw [result]
  · rw [result]
  · rcases skips with first | other | lapped
    · exact absurd (first.symm.trans anchored) (by decide)
    · exact absurd same other
    · exact absurd lapped (Nat.not_le.mpr near)

theorem World.Consistent.get_hands {w : World} (consistent : w.Consistent) (r size aligned : Nat) (now : Int)
    (anchored : (w.readers r).first = false) (same : (w.readers r).generation = w.current)
    (near : w.lag r < w.ring.dataSize) :
    let count := copyDataLen (w.lag r) size aligned
    (w.getResult r size aligned now).2.2.length = count ∧
      (w.getResult r size aligned now).2.2 = slice (w.stream w.current) (w.readers r).dataCount count ∧
      (w.getResult r size aligned now).2.1.dataCount = (w.readers r).dataCount + count := by
  have behind := (consistent.readers r anchored).behind
  have ready := copyDataLen_le_ready (w.lag r) size aligned
  have lag : w.lag r = (w.stream w.current).length - (w.readers r).dataCount := by rw [World.lag,same]
  rw [same] at behind
  rcases consistent.get_cases r size aligned now with
    ⟨stale,_⟩ | ⟨_,_,lapped,_⟩ | ⟨_,_,_,_,_,result⟩
  · rcases stale with first | other
    · exact absurd (first.symm.trans anchored) (by decide)
    · exact absurd same other
  · exact absurd lapped (Nat.not_le.mpr near)
  · rw [result]
    refine ⟨?_,rfl,rfl⟩
    rw [slice_length]
    omega

/-- Every run, every reader. Since its last (re-)anchoring an anchored reader
received exactly the put stream of its incarnation from the anchor's offset on,
and its position and counter agree with that incarnation's write head. A put of
1 to n bytes is the next of the put stream, and no other is taken. A get counts
an overrun exactly at a lag of a whole buffer; the reader's place in the stream is
discontinuous exactly there and at a change of incarnation, where it is put at the
write head, as it is by its first get. Any other get hands out what is next. -/
theorem put_stream_delivered (now : Int) (ops : List Op) (r : Nat) :
    let w := World.run now ops
    let reader := w.readers r
    let ring := w.rings reader.generation
    let stream := w.stream reader.generation
    (reader.first = true → reader = .fresh) ∧
    (reader.first = false →
      w.received r = slice stream (w.anchor r) (w.received r).length ∧
      reader.dataCount = w.anchor r + (w.received r).length ∧ reader.dataCount ≤ stream.length ∧
      reader.readPos < ring.dataSize ∧ (reader.readPos + w.lag r) % ring.dataSize = ring.writePos) ∧
    (w.ring.dataCount = (w.stream w.current).length ∧ w.stream w.nextGeneration = [] ∧
      reader.generation < w.nextGeneration) ∧
    (∀ data, 1 ≤ data.length → data.length ≤ w.ring.dataSize →
      (put w.ring data).2 = some data.length ∧
      (w.step (.put data)).stream w.current = w.stream w.current ++ data) ∧
    (∀ data, ¬ (1 ≤ data.length ∧ data.length ≤ w.ring.dataSize) →
      (put w.ring data).2 = none ∧ w.step (.put data) = w) ∧
    ∀ size aligned time,
      let result := w.getResult r size aligned time
      let next := w.step (.get r size aligned time)
      let count := if 0 < aligned then min (w.lag r) size / aligned * aligned else min (w.lag r) size
      next.readers r = result.2.1 ∧
      (result.1.overrunCount = w.ring.overrunCount + 1 ↔
        reader.first = false ∧ reader.generation = w.current ∧ w.ring.dataSize ≤ w.lag r) ∧
      (reader.first = false →
        (¬ (result.2.1.generation = reader.generation ∧
            result.2.1.dataCount = reader.dataCount + result.2.2.length) ↔
          result.1.overrunCount = w.ring.overrunCount + 1 ∨ reader.generation ≠ w.current)) ∧
      (reader.first = true ∨ reader.generation ≠ w.current ∨ w.ring.dataSize ≤ w.lag r →
        result.2 = (⟨w.ring.writePos,(w.stream w.current).length,false,w.current⟩,[]) ∧
        next.anchor r = (w.stream w.current).length ∧ next.received r = []) ∧
      (reader.first = false → reader.generation = w.current → w.lag r < w.ring.dataSize →
        result.2.2.length = count ∧ result.2.2 = slice stream reader.dataCount count ∧
        result.2.1.dataCount = reader.dataCount + count ∧
        next.anchor r = w.anchor r ∧ next.received r = w.received r ++ result.2.2) := by
  intro w reader ring stream
  have consistent : w.Consistent := World.run_consistent now ops
  refine ⟨consistent.unanchored r,?_,?_,w.put_taken,w.put_refused,?_⟩
  · intro anchored
    have follows := consistent.readers r anchored
    have counted := consistent.incarnations reader.generation
    refine ⟨follows.contiguous,follows.consumed,follows.behind,?_,?_⟩
    · rw [follows.position]
      exact Nat.mod_lt _ counted.positive
    · rw [follows.position,counted.head,Nat.mod_add_mod]
      congr 1
      exact Nat.add_sub_cancel' follows.behind
  · exact ⟨(consistent.incarnations w.current).counted,consistent.unwritten _ (Nat.le_refl _),consistent.known r⟩
  · intro size aligned time result next count
    have reanchors := consistent.get_reanchors r size aligned time
    refine ⟨Function.update_self _ _ _,consistent.overrun_iff r size aligned time,?_,?_,?_⟩
    · intro anchored
      rw [consistent.overrun_iff r size aligned time]
      exact consistent.skip_iff r size aligned time anchored
    · intro skips
      have placed : result.2 = _ := consistent.get_anchors r size aligned time skips
      refine ⟨placed,?_,?_⟩
      · change Function.update w.anchor r _ r = _
        rw [Function.update_self,if_pos (reanchors.mpr skips)]
      · change Function.update w.received r _ r = _
        rw [Function.update_self,if_pos (reanchors.mpr skips)]
        exact congrArg Prod.snd placed
    · intro anchored same near
      have goes : ¬ w.Reanchors r size aligned time := by
        rw [reanchors]
        rintro (first | other | lapped)
        · exact absurd (first.symm.trans anchored) (by decide)
        · exact other same
        · exact absurd lapped (Nat.not_le.mpr near)
      obtain ⟨length,bytes,moved⟩ := consistent.get_hands r size aligned time anchored same near
      refine ⟨length,?_,moved,?_,?_⟩
      · change _ = slice (w.stream (w.readers r).generation) _ _
        rw [same]
        exact bytes
      · change Function.update w.anchor r _ r = _
        rw [Function.update_self,if_neg goes]
      · change Function.update w.received r _ r = _
        rw [Function.update_self,if_neg goes]

/-- A ring of four bytes: the second put goes round its end, and the last two are a whole
buffer and more ahead of the reader. -/
def lapped : List Op :=
  [.setSize ⟨4,by decide⟩,.get 0 8 0 1,.put [1,2,3],.get 0 8 0 2,.put [4,5,6],.get 0 8 0 3,.put [7,8,9],.put [10,11]]

theorem put_stream_delivered_lapped :
    let w := World.run 0 lapped
    w.received 0 = [1,2,3,4,5,6] ∧ w.received 0 = slice (w.stream 2) (w.anchor 0) 6 ∧
      (put w.ring [12]).2 = some 1 ∧ (put w.ring [1,2,3,4,5]).2 = none ∧
      (w.getResult 0 8 0 4).1.overrunCount = w.ring.overrunCount + 1 ∧
      (w.getResult 0 8 0 4).2 = (⟨3,11,false,2⟩,[]) := by
  obtain ⟨_,anchored,_,taken,refused,gets⟩ := put_stream_delivered 0 lapped 0
  obtain ⟨_,overrun,_,skips,_⟩ := gets 8 0 4
  have received : (World.run 0 lapped).received 0 = [1,2,3,4,5,6] := by decide +kernel
  have stream := (anchored (by decide +kernel)).1
  rw [received] at stream
  refine ⟨received,?_,?_,?_,?_,?_⟩
  · rw [received]
    exact stream.trans (by decide +kernel)
  · exact (taken [12] (by decide) (by decide +kernel)).1
  · exact (refused [1,2,3,4,5] (by decide +kernel)).1
  · exact overrun.mpr (by decide +kernel)
  · exact (skips (by decide +kernel)).1.trans (by decide +kernel)

end SrtLiveServer.RecycleArray
