import SrtLiveServer.RingReaders
import SrtLiveServer.Transition

/-! One writer and any number of readers of one ring, with `put` as the code
performs it: the locked copy is one step and the counter published after the
lock another, and any `get` may fall between them. -/
namespace SrtLiveServer.RecycleArray
open Circular Transition

inductive Action where
  /-- `put` up to the end of its write-locked block. -/
  | copy (data : List UInt8)
  | publish
  | get (reader size aligned : Nat) (now : Int)
deriving DecidableEq,Repr

structure Session where
  ring : Ring
  /-- Bytes copied by a `put` that has not raised the counter yet. -/
  pending : Nat
  readers : Nat → ReadID
  stream : List UInt8
  anchor : Nat → Nat
  received : Nat → List UInt8

def Session.start (n : Size) (now : Int) : Session where
  ring := setSize (create 1 now) n 2
  pending := 0
  readers := fun _ => .fresh
  stream := []
  anchor := fun _ => 0
  received := fun _ => []

def Session.getResult (s : Session) (reader size aligned : Nat) (now : Int) : Ring × ReadID × List UInt8 :=
  get s.ring size (s.readers reader) aligned now

def Session.Reanchors (s : Session) (reader size aligned : Nat) (now : Int) : Prop :=
  (s.readers reader).first = true ∨ (s.readers reader).generation ≠ s.ring.generation ∨
    (s.getResult reader size aligned now).1.overrunCount ≠ s.ring.overrunCount

instance (s : Session) (reader size aligned : Nat) (now : Int) :
    Decidable (s.Reanchors reader size aligned now) :=
  inferInstanceAs (Decidable (_ ∨ _ ∨ _))

/-- There is one writer: it starts no `put` before its last one has returned. -/
def Session.step (s : Session) : Action → Option Session
  | .copy data =>
    if s.pending = 0 ∧ 0 < data.length ∧ data.length ≤ s.ring.dataSize then
      some {s with ring := putCopy s.ring data,pending := data.length,stream := s.stream ++ data}
    else none
  | .publish =>
    if 0 < s.pending then some {s with ring := putCount s.ring s.pending,pending := 0} else none
  | .get reader size aligned now =>
    let result := s.getResult reader size aligned now
    let reanchors := s.Reanchors reader size aligned now
    some {s with
      ring := result.1
      readers := Function.update s.readers reader result.2.1
      anchor := Function.update s.anchor reader (if reanchors then s.stream.length else s.anchor reader)
      received := Function.update s.received reader
        (if reanchors then result.2.2 else s.received reader ++ result.2.2)}

def session : Machine Session Action := ⟨Session.step⟩

/-- Each anchored reader has been given exactly the stream from its anchor's
offset on, and no more of it than was copied in. -/
def Session.Faithful (s : Session) : Prop :=
  ∀ r, (s.readers r).first = false →
    s.received r = slice s.stream (s.anchor r) (s.received r).length ∧
      s.anchor r + (s.received r).length ≤ s.stream.length

/-- A get inside a `put` is harmless for a reader that is anchored, has not run
ahead of the counter, and has not lost unread bytes to the copy. -/
def Session.Untorn (s : Session) : Action → Prop
  | .get r _ _ _ => s.pending = 0 ∨
      ((s.readers r).first = false ∧ (s.readers r).dataCount ≤ s.ring.dataCount ∧
        s.stream.length ≤ (s.readers r).dataCount + s.ring.dataSize)
  | _ => True

structure Session.Consistent (s : Session) : Prop where
  represents : Represents s.ring s.stream
  counted : s.ring.dataCount + s.pending = s.stream.length
  readers : ∀ r, (s.readers r).first = false → (s.readers r).generation = s.ring.generation ∧
    Follows s.ring s.stream (s.readers r) (s.anchor r) (s.received r)

theorem Session.start_consistent (n : Size) (now : Int) : (Session.start n now).Consistent where
  represents := (setSize_counted (create 1 now) n 2).toRepresents
  counted := rfl
  readers := fun _ anchored => by simp [Session.start,ReadID.fresh] at anchored

/-- The cases of a get that meets the guard, by the state it is taken in. The
bytes of an unfinished `put` are already handed out. -/
theorem Session.Consistent.get_cases {s : Session} (consistent : s.Consistent) (r size aligned : Nat) (now : Int)
    (untorn : s.Untorn (.get r size aligned now)) :
    (s.Reanchors r size aligned now ∧ s.pending = 0 ∧
      ∃ overruns, s.getResult r size aligned now =
        ({s.ring with overrunCount := overruns},
          ⟨s.ring.writePos,s.ring.dataCount,false,s.ring.generation⟩,[])) ∨
    (¬ s.Reanchors r size aligned now ∧ (s.readers r).first = false ∧
      ∃ backlog time copy, copy ≤ s.stream.length - (s.readers r).dataCount ∧
        s.getResult r size aligned now =
          ({s.ring with maxReaderBacklog := backlog,lastReadTime := time},
            {s.readers r with
              readPos := ((s.readers r).dataCount + copy) % s.ring.dataSize
              dataCount := (s.readers r).dataCount + copy},
            slice s.stream (s.readers r).dataCount copy)) := by
  have counted := consistent.counted
  by_cases anchored : (s.readers r).first = false
  · obtain ⟨same,follows⟩ := consistent.readers r anchored
    have behind := follows.behind
    by_cases lapped : (s.readers r).dataCount + s.ring.dataSize ≤ s.ring.dataCount
    · have settled : s.pending = 0 := by
        rcases untorn with settled | ⟨_,_,near⟩
        · exact settled
        · omega
      have result := get_overrun s.ring size (s.readers r) aligned now anchored same
        consistent.represents.positive lapped
      refine Or.inl ⟨Or.inr (Or.inr ?_),settled,s.ring.overrunCount + 1,?_⟩
      · rw [getResult,result]
        simp
      · rw [getResult,result]
        simp only [anchored,same]
    · have published : (s.readers r).dataCount ≤ s.ring.dataCount := by
        rcases untorn with settled | ⟨_,published,_⟩
        · omega
        · exact published
      have near : s.stream.length ≤ (s.readers r).dataCount + s.ring.dataSize := by
        rcases untorn with settled | ⟨_,_,near⟩
        · omega
        · exact near
      by_cases level : (s.readers r).readPos = s.ring.writePos ∧ s.ring.dataCount = (s.readers r).dataCount
      · -- the counter shows nothing new, also when a whole buffer was just copied
        have result := get_level s.ring size (s.readers r) aligned now anchored same level.1 level.2
        refine Or.inr ⟨?_,anchored,s.ring.maxReaderBacklog,s.ring.lastReadTime,0,Nat.zero_le _,?_⟩
        · simp [Reanchors,getResult,result,anchored,same]
        · rw [getResult,result]
          simp only [Nat.add_zero,slice_zero,← follows.position]
      · have ahead : (s.readers r).dataCount < s.stream.length := by
          refine Nat.lt_of_le_of_ne behind fun equal => level ⟨?_,by omega⟩
          rw [follows.position,consistent.represents.head,equal]
        have result := get_drain consistent.represents size (s.readers r) aligned now anchored same
          follows.position ahead near published (by omega) level
        refine Or.inr ⟨?_,anchored,_,_,_,copyDataLen_le_ready _ size aligned,result⟩
        simp [Reanchors,getResult,result,anchored,same]
  · have first : (s.readers r).first = true := by simpa using anchored
    have settled : s.pending = 0 := by
      rcases untorn with settled | ⟨contrary,_⟩
      · exact settled
      · exact absurd contrary anchored
    refine Or.inl ⟨Or.inl first,settled,s.ring.overrunCount,?_⟩
    rw [getResult,get_anchor _ _ _ _ _ (Or.inl first)]

theorem Session.Consistent.copy {s : Session} (consistent : s.Consistent) (data : List UInt8)
    (settled : s.pending = 0) (fits : data.length ≤ s.ring.dataSize) :
    Session.Consistent {s with ring := putCopy s.ring data,pending := data.length,stream := s.stream ++ data} where
  represents := consistent.represents.putCopy data fits
  counted := by
    have counted := consistent.counted
    simp only [putCopy_dataCount,List.length_append]
    omega
  readers := fun r anchored =>
    have ⟨same,follows⟩ := consistent.readers r anchored
    ⟨same,follows.append _ data rfl⟩

theorem Session.Consistent.publish {s : Session} (consistent : s.Consistent) :
    Session.Consistent {s with ring := putCount s.ring s.pending,pending := 0} where
  represents := consistent.represents.congr _ rfl rfl rfl
  counted := consistent.counted
  readers := fun r anchored =>
    have ⟨same,follows⟩ := consistent.readers r anchored
    ⟨same,follows.congr _ rfl⟩

theorem Session.Consistent.get_follows {s : Session} (consistent : s.Consistent) (r size aligned : Nat) (now : Int)
    (untorn : s.Untorn (.get r size aligned now)) :
    (s.getResult r size aligned now).2.1.generation = s.ring.generation ∧
      Follows s.ring s.stream (s.getResult r size aligned now).2.1
        (if s.Reanchors r size aligned now then s.stream.length else s.anchor r)
        (if s.Reanchors r size aligned now then (s.getResult r size aligned now).2.2
          else s.received r ++ (s.getResult r size aligned now).2.2) := by
  have counted := consistent.counted
  rcases consistent.get_cases r size aligned now untorn with
    ⟨yes,settled,overruns,result⟩ | ⟨no,anchored,backlog,time,copy,cut,result⟩
  · rw [if_pos yes,if_pos yes,result]
    -- the pair read at the head is whole, since no put is under way
    have whole : s.ring.dataCount = s.stream.length := by omega
    refine ⟨rfl,whole.le,?_,whole,(slice_zero s.stream _).symm⟩
    change s.ring.writePos = s.ring.dataCount % s.ring.dataSize
    rw [whole,consistent.represents.head]
  · obtain ⟨same,follows⟩ := consistent.readers r anchored
    have behind := follows.behind
    have given : (slice s.stream (s.readers r).dataCount copy).length = copy := by
      rw [slice_length]
      omega
    rw [if_neg no,if_neg no,result]
    refine ⟨same,?_,rfl,?_,?_⟩
    · change (s.readers r).dataCount + copy ≤ s.stream.length
      omega
    · change (s.readers r).dataCount + copy = _
      rw [List.length_append,given,follows.consumed,Nat.add_assoc]
    · rw [List.length_append,given,← slice_append,← follows.consumed,← follows.contiguous]

theorem Session.Consistent.get {s next : Session} (consistent : s.Consistent) (r size aligned : Nat) (now : Int)
    (untorn : s.Untorn (.get r size aligned now)) (stepped : s.step (.get r size aligned now) = some next) :
    next.Consistent := by
  obtain ⟨generation,follows⟩ := consistent.get_follows r size aligned now untorn
  have ring : ∃ overruns backlog time, (s.getResult r size aligned now).1 =
      {s.ring with overrunCount := overruns,maxReaderBacklog := backlog,lastReadTime := time} := by
    rcases consistent.get_cases r size aligned now untorn with
      ⟨_,_,overruns,result⟩ | ⟨_,_,backlog,time,_,_,result⟩
    · exact ⟨overruns,_,_,by rw [result]⟩
    · exact ⟨_,backlog,time,by rw [result]⟩
  obtain ⟨overruns,backlog,time,ring⟩ := ring
  cases Option.some.inj stepped
  refine ⟨?_,?_,?_⟩
  · rw [ring]
    exact consistent.represents.congr _ rfl rfl rfl
  · rw [ring]
    exact consistent.counted
  · intro other anchored
    rw [ring]
    by_cases same : other = r
    · subst other
      have moved := follows.congr (s.getResult r size aligned now).1 (by rw [ring])
      rw [ring] at moved
      simpa [generation] using moved
    · have ⟨live,earlier⟩ := consistent.readers other (by simpa [same] using anchored)
      have moved := earlier.congr (s.getResult r size aligned now).1 (by rw [ring])
      rw [ring] at moved
      simpa [same,live] using moved

theorem session_keeps : session.Keeps Session.Untorn Session.Consistent := by
  intro s action next consistent untorn stepped
  cases action with
  | copy data =>
    simp only [session,Session.step] at stepped
    split at stepped
    · rename_i enabled
      cases stepped
      exact consistent.copy data enabled.1 enabled.2.2
    · cases stepped
  | publish =>
    simp only [session,Session.step] at stepped
    split at stepped
    · cases stepped
      exact consistent.publish
    · cases stepped
  | get r size aligned now => exact consistent.get r size aligned now untorn stepped

theorem Session.Consistent.faithful {s : Session} (consistent : s.Consistent) : s.Faithful := by
  intro r anchored
  obtain ⟨_,follows⟩ := consistent.readers r anchored
  exact ⟨follows.contiguous,follows.consumed ▸ follows.behind⟩

/-- In every interleaving whose gets are all untorn, each reader is given the
stream from its anchor on, and a reader level with the copied stream nothing. -/
theorem untorn_reads_faithful (n : Size) (now : Int) (actions : List Action) (s : Session)
    (admitted : session.Admits Session.Untorn (Session.start n now) actions)
    (ran : session.run (Session.start n now) actions = some s) :
    s.Faithful ∧ ∀ r size aligned time, s.Untorn (.get r size aligned time) →
      (s.readers r).first = false → s.anchor r + (s.received r).length = s.stream.length →
      (s.getResult r size aligned time).2.2 = [] := by
  have consistent : s.Consistent := session_keeps.run (Session.start_consistent n now) admitted ran
  refine ⟨consistent.faithful,?_⟩
  intro r size aligned time untorn anchored level
  obtain ⟨_,follows⟩ := consistent.readers r anchored
  have consumed := follows.consumed
  rcases consistent.get_cases r size aligned time untorn with
    ⟨_,_,_,result⟩ | ⟨_,_,_,_,copy,cut,result⟩
  · rw [result]
  · have none : copy = 0 := by omega
    rw [result,none]
    exact slice_zero s.stream (s.readers r).dataCount

theorem untorn_reads_faithful_mid_put :
    ∃ s, session.run (Session.start ⟨4,by decide⟩ 0) [.get 0 10 0 0,.copy [1,2],.get 0 10 0 0] = some s ∧
      s.received 0 = [1,2] ∧ s.Faithful := by
  refine ⟨_,rfl,by decide,(untorn_reads_faithful ⟨4,by decide⟩ 0
    [.get 0 10 0 0,.copy [1,2],.get 0 10 0 0] _ ?_ rfl).1⟩
  refine ⟨Or.inl rfl,?_⟩
  rintro _ ⟨⟩
  refine ⟨trivial,?_⟩
  rintro _ ⟨⟩
  refine ⟨Or.inr (by decide),?_⟩
  rintro _ ⟨⟩
  trivial

/-- A reader that anchors between the copy and the counter of one `put` is
later handed the whole ring, its unwritten bytes and those before its anchor. -/
theorem torn_anchor_replays_ring :
    ¬ ∀ (n : Size) (now : Int) (actions : List Action) (s : Session),
      session.run (Session.start n now) actions = some s → s.Faithful := by
  intro claim
  have faithful := claim ⟨4,by decide⟩ 0 [.copy [1,2],.get 0 10 0 0,.publish,.get 0 10 0 0] _ rfl
  have given := faithful 0 (by decide)
  exact absurd given.2 (by decide)

end SrtLiveServer.RecycleArray
