import SrtLiveServer.StreamChannels

/-! Viewers of the streams in one `CSLSMapData`: each has its key and its `SLSRecycleArrayID`,
and reads whatever ring the key stands for when it comes. Streams are added, removed and
added again under it, and rings draw their generations from one counter. -/
namespace SrtLiveServer.MapData
open Bytes RecycleArray Transition Circular

variable {Cc Tc : Type}

/-- Behind the store and the readers stands what a ring was when it was last used, the key
it was made for and the bytes put in it, by generation, and what each reader was handed
since it last anchored. -/
structure Session (Cc Tc : Type) where
  data : State Cc Tc
  readers : Nat → ReadID
  nextGeneration : Nat
  rings : Nat → Ring
  owner : Nat → Text
  stream : Nat → List UInt8
  anchor : Nat → Nat
  received : Nat → List UInt8

inductive Event where
  /-- `made` and `grown` are the generations that the ring draws if it is made. -/
  | add (key : Text) (maxBitrateKbps latencyMs : Int) (made grown : Nat) (now : Int)
  | remove (key : Text)
  | clear
  | put (key : Text) (data : List UInt8)
  | get (reader size aligned : Nat) (now : Int)
  | setTimecodeScan (key : Option Text) (enabled : Bool)

/-- The store after a call on `key`, whose ring is written down. -/
def Session.settle (s : Session Cc Tc) (data : State Cc Tc) (key : Text) : Session Cc Tc :=
  {s with
    data := data
    rings := match data.mapArray.lookup key with
      | none => s.rings
      | some stream => Function.update s.rings stream.ring.generation stream.ring}

def Session.add (scanners : Scanners Cc Tc) (s : Session Cc Tc) (key : Text) (maxBitrateKbps latencyMs : Int)
    (made grown : Nat) (now : Int) : Session Cc Tc :=
  let data := (s.data.add scanners key maxBitrateKbps latencyMs made grown now).2
  let drawn := {s.settle data key with nextGeneration := grown + 1}
  match s.data.mapArray.lookup key,data.mapArray.lookup key with
  | none,some stream => {drawn with owner := Function.update s.owner stream.ring.generation key}
  | _,_ => drawn

def Session.put (scanners : Scanners Cc Tc) (s : Session Cc Tc) (key : Text) (data : List UInt8) : Session Cc Tc :=
  let result := s.data.put scanners key data
  let settled := s.settle result.2.2 key
  match s.data.mapArray.lookup key,result.1 with
  | some stream,some _ =>
    {settled with
      stream := Function.update s.stream stream.ring.generation (s.stream stream.ring.generation ++ data)}
  | _,_ => settled

/-- A reader anchors on its first read, on another ring, and where it was overrun. -/
def Session.get (s : Session Cc Tc) (key : Text) (r size aligned : Nat) (now : Int) : Session Cc Tc :=
  let result := s.data.get key size (s.readers r) aligned now
  match s.data.mapArray.lookup key,result.1,result.2.mapArray.lookup key with
  | some before,some (reader,bytes),some after =>
    let reanchors := (s.readers r).first = true ∨ (s.readers r).generation ≠ before.ring.generation ∨
      after.ring.overrunCount ≠ before.ring.overrunCount
    {s.settle result.2 key with
      readers := Function.update s.readers r reader
      anchor := Function.update s.anchor r
        (if reanchors then (s.stream before.ring.generation).length else s.anchor r)
      received := Function.update s.received r (if reanchors then bytes else s.received r ++ bytes)}
  | _,_,_ => s

/-- `keyOf` gives the stream that a reader was accepted for. -/
def Session.step (scanners : Scanners Cc Tc) (keyOf : Nat → Text) (s : Session Cc Tc) : Event → Option (Session Cc Tc)
  | .add key maxBitrateKbps latencyMs made grown now =>
    if s.nextGeneration ≤ made ∧ made < grown then some (s.add scanners key maxBitrateKbps latencyMs made grown now) else none
  | .remove key => some {s with data := (s.data.remove key).2}
  | .clear => some {s with data := s.data.clear}
  | .put key data => some (s.put scanners key data)
  | .get r size aligned now => some (s.get (keyOf r) r size aligned now)
  | .setTimecodeScan key enabled => some {s with data := s.data.setTimecodeScan scanners key enabled}

def Session.start (maxStreams maxTotalRingBytes : Int) : Session Cc Tc where
  data := State.start.setCaps maxStreams maxTotalRingBytes
  readers := fun _ => .fresh
  nextGeneration := 1
  rings := fun generation => create generation 0
  owner := fun _ => []
  stream := fun _ => []
  anchor := fun _ => 0
  received := fun _ => []

/-- One ring of the session, as the readers of a single ring see it. -/
def Session.world (s : Session Cc Tc) (generation : Nat) : World :=
  ⟨s.rings,generation,s.nextGeneration,s.readers,s.stream,s.anchor,s.received⟩

structure Session.Linked (keyOf : Nat → Text) (s : Session Cc Tc) : Prop where
  positive : 0 < s.nextGeneration
  consistent : (s.world 0).Consistent
  linked : ∀ {key stream}, s.data.mapArray.lookup key = some stream → s.rings stream.ring.generation = stream.ring ∧
    stream.ring.generation < s.nextGeneration ∧ s.owner stream.ring.generation = key
  readers : ∀ r, (s.readers r).first = false → s.owner (s.readers r).generation = keyOf r

section Sessions

variable {scanners : Scanners Cc Tc} {keyOf : Nat → Text} {s : Session Cc Tc}

theorem consistent_at {w : World} (consistent : w.Consistent) {g : Nat} (live : g < w.nextGeneration) :
    World.Consistent {w with current := g} :=
  ⟨live,consistent.identity,consistent.incarnations,consistent.unwritten,consistent.known,consistent.unanchored,consistent.readers⟩

theorem consistent_later {w : World} (consistent : w.Consistent) {n : Nat} (later : w.nextGeneration ≤ n) :
    World.Consistent {w with nextGeneration := n} :=
  ⟨Nat.lt_of_lt_of_le consistent.live later,consistent.identity,consistent.incarnations,
    fun g bound => consistent.unwritten g (Nat.le_trans later bound),fun r => Nat.lt_of_lt_of_le (consistent.known r) later,
    consistent.unanchored,consistent.readers⟩

/-- A ring of a generation that was not drawn before. -/
theorem consistent_made {w : World} (consistent : w.Consistent) {ring : Ring} (counted : Counted ring [])
    (fresh : w.nextGeneration ≤ ring.generation) {n : Nat} (later : ring.generation < n) :
    World.Consistent {w with rings := Function.update w.rings ring.generation ring,nextGeneration := n} := by
  refine ⟨Nat.lt_trans (Nat.lt_of_lt_of_le consistent.live fresh) later,?_,?_,
    fun g bound => consistent.unwritten g (Nat.le_trans (Nat.le_of_lt (Nat.lt_of_le_of_lt fresh later)) bound),
    fun r => Nat.lt_trans (Nat.lt_of_lt_of_le (consistent.known r) fresh) later,consistent.unanchored,fun r anchored => ?_⟩
  · refine (Function.forall_update_iff w.rings fun g ring => ring.generation = g).mpr ⟨rfl,?_⟩
    exact fun g _ => consistent.identity g
  · intro g
    by_cases new : g = ring.generation
    · subst new
      simpa [consistent.unwritten _ fresh] using counted
    · simpa [new] using consistent.incarnations g
  · have old : (w.readers r).generation ≠ ring.generation := Nat.ne_of_lt (Nat.lt_of_lt_of_le (consistent.known r) fresh)
    simpa [old] using consistent.readers r anchored

theorem allocate_made (intended : Int) {made grown : Nat} (apart : made < grown) (now : Int) :
    Counted (MapData.allocate intended made grown now) [] ∧ made ≤ (MapData.allocate intended made grown now).generation ∧
      (MapData.allocate intended made grown now).generation ≤ grown := by
  unfold MapData.allocate
  dsimp only
  split
  · rename_i larger
    have positive : 0 < intended.toNat := by
      have floor : (0 : Int) ≤ ((create made now).dataSize : Int) := Int.natCast_nonneg _
      omega
    exact ⟨setSize_counted (create made now) ⟨intended.toNat,positive⟩ grown,Nat.le_of_lt apart,Nat.le_refl _⟩
  · exact ⟨create_counted made now,Nat.le_refl _,Nat.le_of_lt apart⟩

theorem Session.Linked.fewer (linked : s.Linked keyOf) {data : State Cc Tc}
    (fewer : ∀ {key stream}, data.mapArray.lookup key = some stream → s.data.mapArray.lookup key = some stream) :
    Session.Linked keyOf {s with data := data} :=
  ⟨linked.positive,linked.consistent,fun found => linked.linked (fewer found),linked.readers⟩

theorem Session.Linked.stepped (linked : s.Linked keyOf) {key : Text} {before after : Stream} {data : State Cc Tc}
    {next : Session Cc Tc} (op : Op) (found : s.data.mapArray.lookup key = some before)
    (found' : data.mapArray.lookup key = some after) (others : ∀ other, other ≠ key → data.mapArray.lookup other = s.data.mapArray.lookup other)
    (same : after.ring.generation = before.ring.generation) (store : next.data = data) (owner : next.owner = s.owner)
    (world : next.world before.ring.generation = (s.world before.ring.generation).step op)
    (current : next.rings before.ring.generation = after.ring) (count : next.nextGeneration = s.nextGeneration)
    (rings : ∀ g, g ≠ before.ring.generation → next.rings g = s.rings g)
    (readers : ∀ r, (next.readers r).first = false → next.owner (next.readers r).generation = keyOf r) : next.Linked keyOf := by
  obtain ⟨_,live,owned⟩ := linked.linked found
  have consistent : (next.world before.ring.generation).Consistent := world ▸ (consistent_at linked.consistent live).step op
  have positive : 0 < next.nextGeneration := count ▸ linked.positive
  refine ⟨positive,consistent_at consistent positive,fun {other stream} here => ?_,readers⟩
  · rw [store] at here
    rw [owner,count]
    by_cases at_ : other = key
    · subst at_
      cases found'.symm.trans here
      rw [same]
      exact ⟨current,live,owned⟩
    · rw [others other at_] at here
      obtain ⟨there,live',owned'⟩ := linked.linked here
      refine ⟨?_,live',owned'⟩
      have apart : stream.ring.generation ≠ before.ring.generation := by
        intro shared
        rw [shared,owned] at owned'
        exact at_ owned'.symm
      rw [rings _ apart]
      exact there

theorem add_cases (scanners : Scanners Cc Tc) (data : State Cc Tc) (key : Text) (maxBitrateKbps latencyMs : Int)
    (made grown : Nat) (now : Int) :
    (data.add scanners key maxBitrateKbps latencyMs made grown now).2 = data ∨
      data.mapArray.lookup key = none ∧ (data.add scanners key maxBitrateKbps latencyMs made grown now).2.mapArray =
        data.mapArray.insert key ⟨MapData.allocate (intendedSize maxBitrateKbps latencyMs) made grown now,0⟩ := by
  unfold State.add
  cases found : data.mapArray.lookup key with
  | some stream => exact .inl rfl
  | none =>
    dsimp only
    split
    · exact .inl rfl
    split
    · exact .inl rfl
    · exact .inr ⟨rfl,rfl⟩

theorem Session.Linked.add (linked : s.Linked keyOf) (key : Text) (maxBitrateKbps latencyMs : Int) {made grown : Nat}
    (fresh : s.nextGeneration ≤ made) (apart : made < grown) (now : Int) :
    (s.add scanners key maxBitrateKbps latencyMs made grown now).Linked keyOf := by
  have later : s.nextGeneration ≤ grown + 1 := by omega
  unfold Session.add Session.settle
  obtain same | ⟨absent,inserted⟩ := add_cases scanners s.data key maxBitrateKbps latencyMs made grown now
  · -- no ring was made, so the one that is there is written down again
    rw [same]
    have kept : (match s.data.mapArray.lookup key with
        | none => s.rings
        | some stream => Function.update s.rings stream.ring.generation stream.ring) = s.rings := by
      cases found : s.data.mapArray.lookup key with
      | none => rfl
      | some stream =>
        obtain ⟨there,_⟩ := linked.linked found
        exact (congrArg (Function.update s.rings _) there.symm).trans (Function.update_eq_self _ _)
    have drawn : Session.Linked keyOf {s with nextGeneration := grown + 1} := by
      refine ⟨Nat.succ_pos grown,consistent_later linked.consistent later,fun found => ?_,linked.readers⟩
      obtain ⟨there,live,owned⟩ := linked.linked found
      exact ⟨there,Nat.lt_of_lt_of_le live later,owned⟩
    dsimp only
    rw [kept]
    cases found : s.data.mapArray.lookup key with
    | none => exact drawn
    | some stream => exact drawn
  · obtain ⟨counted,above,below⟩ := allocate_made (intendedSize maxBitrateKbps latencyMs) apart now
    have made_ := Nat.le_trans fresh above
    have consistent := consistent_made linked.consistent counted made_ (Nat.lt_succ_of_le below)
    dsimp only
    rw [absent,inserted,AList.lookup_insert]
    refine ⟨Nat.succ_pos grown,consistent,fun {other stream} found => ?_,fun r anchored => ?_⟩
    · change AList.lookup other (State.add scanners s.data key maxBitrateKbps latencyMs made grown now).2.mapArray = _ at found
      rw [inserted,insert_at] at found
      split at found
      · rename_i same
        cases found
        refine ⟨Function.update_self ..,Nat.lt_succ_of_le below,?_⟩
        rw [← same]
        exact Function.update_self ..
      · obtain ⟨there,live,owned⟩ := linked.linked found
        have old : stream.ring.generation ≠ (MapData.allocate (intendedSize maxBitrateKbps latencyMs) made grown now).generation :=
          Nat.ne_of_lt (Nat.lt_of_lt_of_le live made_)
        exact ⟨(Function.update_of_ne old _ _).trans there,Nat.lt_of_lt_of_le live later,
          (Function.update_of_ne old _ _).trans owned⟩
    · have known : (s.readers r).generation < s.nextGeneration := linked.consistent.known r
      have old : (s.readers r).generation ≠ (MapData.allocate (intendedSize maxBitrateKbps latencyMs) made grown now).generation :=
        Nat.ne_of_lt (Nat.lt_of_lt_of_le known made_)
      exact (Function.update_of_ne old _ _).trans (linked.readers r anchored)

theorem put_map (scanners : Scanners Cc Tc) {data : State Cc Tc} {key : Text} {stream : Stream}
    (found : data.mapArray.lookup key = some stream) (block : List UInt8) :
    (data.put scanners key block).1 = (RecycleArray.put stream.ring block).2 ∧
      ∃ count, (data.put scanners key block).2.2.mapArray =
        data.mapArray.insert key ⟨(RecycleArray.put stream.ring block).1,count⟩ := by
  unfold State.put
  rw [found]
  cases data.mapCcState.lookup key with
  | none => exact ⟨rfl,_,rfl⟩
  | some cc => exact ⟨rfl,_,rfl⟩

theorem put_generation (ring : Ring) (block : List UInt8) : (RecycleArray.put ring block).1.generation = ring.generation := by
  unfold RecycleArray.put
  split
  · rfl
  split
  · rfl
  · rfl

theorem put_refused {ring : Ring} {block : List UInt8} (refused : (RecycleArray.put ring block).2 = none) :
    (RecycleArray.put ring block).1 = ring := by
  unfold RecycleArray.put at refused ⊢
  split
  · rfl
  split
  · rfl
  · rename_i some_ fits
    rw [if_neg some_,if_neg fits] at refused
    cases refused

theorem step_put_refused {w : World} {block : List UInt8} (refused : (RecycleArray.put w.ring block).2 = none) :
    w.step (.put block) = w := by
  unfold World.step
  dsimp only
  split
  · rfl
  · rename_i result
    rw [result] at refused
    cases refused

theorem step_put_accepted {w : World} {block : List UInt8} {written : Nat} (accepted : (RecycleArray.put w.ring block).2 = some written) :
    w.step (.put block) = {w with
      rings := Function.update w.rings w.current (RecycleArray.put w.ring block).1
      stream := Function.update w.stream w.current (w.stream w.current ++ block)} := by
  unfold World.step
  dsimp only
  split
  · rename_i result
    rw [result] at accepted
    cases accepted
  · rename_i result
    rw [result]

theorem Session.Linked.put (linked : s.Linked keyOf) (key : Text) (block : List UInt8) : (s.put scanners key block).Linked keyOf := by
  unfold Session.put Session.settle
  cases found : s.data.mapArray.lookup key with
  | none =>
    have untouched : (s.data.put scanners key block).2.2 = s.data := by
      unfold State.put
      rw [found]
    dsimp only
    rw [untouched,found]
    exact linked
  | some stream =>
    obtain ⟨there,live,owned⟩ := linked.linked found
    obtain ⟨code,count,inserted⟩ := put_map scanners found block
    have found' : (s.data.put scanners key block).2.2.mapArray.lookup key =
        some ⟨(RecycleArray.put stream.ring block).1,count⟩ := by rw [inserted,AList.lookup_insert]
    have others : ∀ other, other ≠ key → (s.data.put scanners key block).2.2.mapArray.lookup other = s.data.mapArray.lookup other :=
      fun other away => by rw [inserted,AList.lookup_insert_ne away]
    have same := put_generation stream.ring block
    have ring : (s.world stream.ring.generation).ring = stream.ring := there
    dsimp only
    rw [found',code]
    dsimp only
    rw [same]
    cases accepted : (RecycleArray.put stream.ring block).2 with
    | none =>
      have kept := put_refused accepted
      refine linked.stepped (.put block) found found' others same rfl rfl ?_ (Function.update_self ..) rfl
        (fun g away => Function.update_of_ne away _ _) linked.readers
      rw [step_put_refused (by rw [ring]; exact accepted)]
      unfold Session.world
      dsimp only
      rw [kept]
      congr 1
      exact (congrArg (Function.update s.rings _) there.symm).trans (Function.update_eq_self _ _)
    | some written =>
      refine linked.stepped (.put block) found found' others same rfl rfl ?_ (Function.update_self ..) rfl
        (fun g away => Function.update_of_ne away _ _) linked.readers
      rw [step_put_accepted (by rw [ring]; exact accepted),ring]
      rfl

theorem Session.Linked.get (linked : s.Linked keyOf) (r size aligned : Nat) (now : Int) :
    (s.get (keyOf r) r size aligned now).Linked keyOf := by
  unfold Session.get Session.settle
  cases found : s.data.mapArray.lookup (keyOf r) with
  | none => exact linked
  | some stream =>
    obtain ⟨there,live,owned⟩ := linked.linked found
    have consistent : (s.world stream.ring.generation).Consistent := consistent_at linked.consistent live
    have ring : (s.world stream.ring.generation).ring = stream.ring := there
    obtain ⟨_,generation,_⟩ := consistent.get_ring r size aligned now
    obtain ⟨anchored,at_,_⟩ := consistent.get_follows r size aligned now
    have result : (s.world stream.ring.generation).getResult r size aligned now =
        RecycleArray.get stream.ring size (s.readers r) aligned now := by
      unfold World.getResult
      rw [ring]
      rfl
    rw [result] at generation anchored at_
    let after : Stream := {stream with ring := (RecycleArray.get stream.ring size (s.readers r) aligned now).1}
    have got : s.data.get (keyOf r) size (s.readers r) aligned now =
        (some ((RecycleArray.get stream.ring size (s.readers r) aligned now).2.1,
            (RecycleArray.get stream.ring size (s.readers r) aligned now).2.2),
          {s.data with mapArray := s.data.mapArray.insert (keyOf r) after}) := by
      unfold State.get
      rw [found]
    rw [got]
    dsimp only
    rw [AList.lookup_insert]
    dsimp only
    rw [show after.ring.generation = stream.ring.generation from generation]
    refine linked.stepped (.get r size aligned now) found (AList.lookup_insert _)
      (fun other away => AList.lookup_insert_ne away) generation rfl rfl ?_ (Function.update_self ..) rfl
      (fun g away => Function.update_of_ne away _ _) fun other anchored' => ?_
    · simp only [World.step,World.Reanchors,result,ring]
      rfl
    · by_cases same : other = r
      · subst same
        show s.owner (Function.update s.readers other _ other).generation = _
        rw [Function.update_self,at_]
        exact owned
      · have kept : Function.update s.readers r (RecycleArray.get stream.ring size (s.readers r) aligned now).2.1 other =
            s.readers other := Function.update_of_ne same _ _
        change (Function.update s.readers r _ other).first = false at anchored'
        show s.owner (Function.update s.readers r _ other).generation = _
        rw [kept] at anchored' ⊢
        exact linked.readers other anchored'

theorem erase_fewer {key other : Text} {stream : Stream} {map : AList fun _ : Text => Stream}
    (found : (map.erase key).lookup other = some stream) : map.lookup other = some stream := by
  rw [erase_at] at found
  split at found
  · cases found
  · exact found

theorem Session.Linked.step (linked : s.Linked keyOf) {event : Event} {next : Session Cc Tc}
    (stepped : s.step scanners keyOf event = some next) : next.Linked keyOf := by
  unfold Session.step at stepped
  cases event with
  | add key maxBitrateKbps latencyMs made grown now =>
    simp only at stepped
    split at stepped
    · rename_i drawn
      cases stepped
      exact linked.add key maxBitrateKbps latencyMs drawn.1 drawn.2 now
    · cases stepped
  | remove key =>
    cases stepped
    refine linked.fewer fun found => ?_
    unfold State.remove at found
    split at found
    · exact erase_fewer found
    · exact found
  | clear =>
    cases stepped
    exact linked.fewer fun found => by cases found
  | put key data =>
    cases stepped
    exact linked.put key data
  | get r size aligned now =>
    cases stepped
    exact linked.get r size aligned now
  | setTimecodeScan key enabled =>
    cases stepped
    refine linked.fewer fun found => ?_
    unfold State.setTimecodeScan at found
    split at found
    · exact found
    split at found
    · exact found
    · split at found <;> exact found

end Sessions

end SrtLiveServer.MapData
