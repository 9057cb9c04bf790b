import SrtLiveServer.RingReaders
import SrtLiveServer.Transition

/-! Egress of a viewer or pusher role, `CSLSRole::handler_write_data`, taken step
by step between the operations on its ring. A batch read from the ring stays
staged in `m_data` until every message of it was accepted by the socket; a call
may end in between and a later one goes on. The messages sent, the bytes read
and where a batch comes from are ghost state. -/
namespace SrtLiveServer.Egress
open Circular RecycleArray Transition

def tsPackLen : Nat := 188
def tsUdpLen : Nat := 1316
def dataBuffSize : Nat := 16 * 1316
def maxEgressBatches : Nat := 2

structure Message where
  generation : Nat
  offset : Nat
  bytes : List UInt8

/-- Where a role is in `handler_write_data`: not in it, at the head of the batch
loop, or in the write loop of a batch. -/
inductive Phase where
  | idle
  | drain (batch : Nat)
  | write (batch : Nat)

/-- What `srt_sendmsg` did with a whole message: took it, or took nothing. -/
inductive Outcome where
  | accepted
  | asyncSnd
  | failed
  | short

structure Rate where
  datacount : Int
  lastTm : Int
  interval : Int
  kbitrate : Int

def Rate.count (rate : Rate) (got : Nat) (now : Int) : Rate :=
  let datacount := rate.datacount + got
  let d := now - rate.lastTm
  if 0 < d ∧ rate.interval ≤ d then {rate with kbitrate := datacount * 8 / d,datacount := 0,lastTm := now}
  else {rate with datacount := datacount}

structure Role where
  data : List UInt8
  dataPos : Nat
  dataLen : Nat
  latency : Int
  backpressureStuckSinceMs : Int
  sendBackpressureCount : Nat
  invalidBeginTm : Int
  rate : Rate

def Role.backpressureStuckTimeoutMs (role : Role) : Int :=
  if 500 < role.latency * 3 then role.latency * 3 else 500

structure State where
  world : World
  /-- The role's key has a ring. -/
  present : Bool
  srt : Bool
  role : Role
  phase : Phase
  writeSize : Nat
  /-- What the last call returned, `none` for `SLS_ERROR`. -/
  ret : Option Nat
  /-- Incarnation and stream offset of the staged batch. -/
  origin : Nat × Nat
  reads : List UInt8
  sent : List Message

def State.start (now : Int) (role : Role) : State where
  world := World.start now
  present := false
  srt := true
  role := {role with data := List.replicate dataBuffSize 0,dataPos := 0,dataLen := 0}
  phase := .idle
  writeSize := 0
  ret := some 0
  origin := (0,0)
  reads := []
  sent := []

inductive Label where
  /-- `handler_read_data` of the publisher got these bytes. -/
  | receive (data : List UInt8)
  | ring (op : Op)
  | remove
  | invalidSrt
  | call (passed keyed : Bool)
  | drain (now : Int)
  | write (outcome : Outcome) (now : Int)

def State.leave (s : State) (ret : Option Nat) : State := {s with phase := .idle,ret := ret}

variable (r : Nat)

/-- `m_map_data->get` of the role into `m_data`; `none` where the key has no ring. -/
def State.get (s : State) (now : Int) : Option (List UInt8 × State) :=
  if s.present then
    let bytes := (s.world.getResult r dataBuffSize tsUdpLen now).2.2
    some (bytes,{s with
      world := s.world.step (.get r dataBuffSize tsUdpLen now)
      role := {s.role with data := splice s.role.data 0 bytes}
      reads := s.reads ++ bytes})
  else none

def State.stage (s : State) (batch len : Nat) (origin : Nat × Nat) (now : Int) : State :=
  {s with
    phase := .write batch
    origin := origin
    role := {s.role with
      dataPos := 0
      dataLen := len
      invalidBeginTm := now
      rate := s.role.rate.count len now}}

def State.drain (s : State) (batch : Nat) (now : Int) : State :=
  if maxEgressBatches ≤ batch then s.leave (some s.writeSize)
  else if !s.srt then s.leave none
  else if s.role.dataLen < tsUdpLen then
    match s.get r now with
    | none => s.leave (some s.writeSize)
    | some (bytes,next) =>
      if bytes = [] then next.leave (some s.writeSize)
      else next.stage batch bytes.length (s.world.current,(s.world.readers r).dataCount) now
  else {s with phase := .write batch}

def State.nextMessage (s : State) : Message :=
  ⟨s.origin.1,s.origin.2 + s.role.dataPos,slice s.role.data s.role.dataPos tsUdpLen⟩

/-- The socket had no room: the role goes on later, unless it is stuck for too long. -/
def State.backpressure (s : State) (now : Int) : State :=
  let since := s.role.backpressureStuckSinceMs
  let counted := {s with role := {s.role with
    sendBackpressureCount := s.role.sendBackpressureCount + 1
    backpressureStuckSinceMs := if since = 0 then now else since}}
  if since ≠ 0 ∧ s.role.backpressureStuckTimeoutMs < now - since then counted.leave none
  else counted.leave (some s.writeSize)

/-- One turn of the write loop of a batch, or what follows its last. -/
def State.write (s : State) (batch : Nat) (outcome : Outcome) (now : Int) : State :=
  if tsUdpLen ≤ s.role.dataLen - s.role.dataPos then
    if !s.srt then s.leave none
    else match outcome with
      | .accepted => {s with
          sent := s.sent ++ [s.nextMessage]
          writeSize := s.writeSize + tsUdpLen
          role := {s.role with dataPos := s.role.dataPos + tsUdpLen,backpressureStuckSinceMs := 0}}
      | .asyncSnd => s.backpressure now
      | .failed => s.leave none
      -- out of the write loop with a message left
      | .short => s.leave (some s.writeSize)
  else if s.role.dataPos < s.role.dataLen then s.leave (some s.writeSize)
  else {s with phase := .drain (batch + 1),role := {s.role with dataPos := 0,dataLen := 0}}

def State.step (s : State) : Label → Option State
  | .receive data =>
    if data.length % tsPackLen ≠ 0 || !s.present then some s
    else some {s with world := s.world.step (.put data)}
  | .ring op => match op with
    | .put _ => none
    | .get reader _ _ _ => if reader = r || !s.present then none else some {s with world := s.world.step op}
    | .setSize _ => if s.present then some {s with world := s.world.step op} else none
    | .recreate _ => some {s with world := s.world.step op,present := true}
    | .otherRing => some {s with world := s.world.step op}
  | .remove => some {s with present := false}
  | .invalidSrt => some {s with srt := false}
  | .call passed keyed => match s.phase with
    | .idle =>
      if !passed then some (s.leave (some 0))
      else if !s.srt || !keyed then some (s.leave none)
      else some {s with phase := .drain 0,writeSize := 0}
    | _ => none
  | .drain now => match s.phase with
    | .drain batch => some (s.drain r batch now)
    | _ => none
  | .write outcome now => match s.phase with
    | .write batch => some (s.write batch outcome now)
    | _ => none

def egress : Machine State Label := ⟨State.step r⟩

/-- A turn of the write loop that gets as far as the socket. -/
def State.Offers (s : State) : Prop :=
  (∃ batch, s.phase = .write batch) ∧ tsUdpLen ≤ s.role.dataLen - s.role.dataPos ∧ s.srt = true

instance (s : State) : Decidable s.Offers :=
  have : Decidable (∃ batch, s.phase = .write batch) := match phase : s.phase with
    | .write batch => .isTrue ⟨batch,rfl⟩
    | .idle => .isFalse (by simp)
    | .drain _ => .isFalse (by simp)
  inferInstanceAs (Decidable (_ ∧ _ ∧ _))

/-- What a step gets the socket to take. -/
def State.accepts (s : State) : Label → List Message
  | .write .accepted _ => if s.Offers then [s.nextMessage] else []
  | _ => []

/-- A turn of the batch loop that reads the ring. -/
def State.Fetches (s : State) : Prop :=
  (∃ batch, s.phase = .drain batch ∧ batch < maxEgressBatches) ∧ s.srt = true ∧ s.role.dataLen < tsUdpLen ∧ s.present = true

instance (s : State) : Decidable s.Fetches :=
  have : Decidable (∃ batch, s.phase = .drain batch ∧ batch < maxEgressBatches) := match phase : s.phase with
    | .drain batch => decidable_of_iff (batch < maxEgressBatches)
        ⟨fun more => ⟨batch,rfl,more⟩,fun ⟨_,same,more⟩ => Phase.drain.inj same ▸ more⟩
    | .idle => .isFalse (by simp)
    | .write _ => .isFalse (by simp)
  inferInstanceAs (Decidable (_ ∧ _ ∧ _ ∧ _))

/-- What a step gets from the ring. -/
def State.fetched (s : State) : Label → List UInt8
  | .drain now => if s.Fetches then (s.world.getResult r dataBuffSize tsUdpLen now).2.2 else []
  | _ => []

/-- Reads and sends against the ring: the reader and its staged batch stand at
whole packets of the stream, and what was sent with what is still staged is what
was read. -/
structure Sound (s : State) : Prop where
  consistent : s.world.Consistent
  packets : ∀ g, tsPackLen ∣ (s.world.stream g).length
  reader : tsPackLen ∣ (s.world.readers r).dataCount
  buffer : s.role.data.length = dataBuffSize
  ordered : s.role.dataPos ≤ s.role.dataLen
  fits : s.role.dataLen ≤ dataBuffSize
  position : tsUdpLen ∣ s.role.dataPos
  whole : tsUdpLen ∣ s.role.dataLen
  origin : tsPackLen ∣ s.origin.2
  inside : s.role.dataLen ≠ 0 → s.origin.2 + s.role.dataLen ≤ (s.world.stream s.origin.1).length
  staged : slice s.role.data 0 s.role.dataLen = slice (s.world.stream s.origin.1) s.origin.2 s.role.dataLen
  accounted : s.sent.flatMap Message.bytes ++ slice s.role.data s.role.dataPos (s.role.dataLen - s.role.dataPos) = s.reads
  messages : ∀ m ∈ s.sent, tsPackLen ∣ m.offset ∧ m.offset + tsUdpLen ≤ (s.world.stream m.generation).length ∧
    m.bytes = slice (s.world.stream m.generation) m.offset tsUdpLen

variable {r : Nat} {s : State}

theorem Sound.world (sound : Sound r s) {w : World} (present : Bool) (consistent : w.Consistent)
    (packets : ∀ g, tsPackLen ∣ (w.stream g).length) (readers : w.readers r = s.world.readers r)
    (grows : ∀ g, ∃ more, w.stream g = s.world.stream g ++ more) : Sound r {s with world := w,present := present} := by
  have kept : ∀ g pos len, pos + len ≤ (s.world.stream g).length →
      pos + len ≤ (w.stream g).length ∧ slice (w.stream g) pos len = slice (s.world.stream g) pos len := by
    intro g pos len inside
    obtain ⟨more,grown⟩ := grows g
    rw [grown,List.length_append]
    exact ⟨Nat.le_add_right_of_le inside,slice_append_left _ _ _ _ inside⟩
  constructor
  · exact consistent
  · exact packets
  · change tsPackLen ∣ (w.readers r).dataCount
    rw [readers]
    exact sound.reader
  · exact sound.buffer
  · exact sound.ordered
  · exact sound.fits
  · exact sound.position
  · exact sound.whole
  · exact sound.origin
  · intro some
    exact (kept _ _ _ (sound.inside some)).1
  · change slice s.role.data 0 s.role.dataLen = slice (w.stream s.origin.1) s.origin.2 s.role.dataLen
    rcases Nat.eq_zero_or_pos s.role.dataLen with none | some
    · rw [none,slice_zero,slice_zero]
    · rw [(kept _ _ _ (sound.inside (Nat.ne_of_gt some))).2]
      exact sound.staged
  · exact sound.accounted
  · intro m member
    obtain ⟨aligned,inside,bytes⟩ := sound.messages m member
    obtain ⟨later,same⟩ := kept _ _ _ inside
    exact ⟨aligned,later,bytes.trans same.symm⟩

theorem tsUdpLen_packets : tsPackLen ∣ tsUdpLen := by decide

/-- What a read of the role gives: nothing, or whole messages from the reader's
offset on; either way the reader stands at a whole packet again. -/
theorem Sound.read (sound : Sound r s) (now : Int) :
    let result := s.world.getResult r dataBuffSize tsUdpLen now
    let offset := (s.world.readers r).dataCount
    tsPackLen ∣ result.2.1.dataCount ∧ (result.2.2 ≠ [] →
      result.2.2 = slice (s.world.stream s.world.current) offset result.2.2.length ∧
      offset + result.2.2.length ≤ (s.world.stream s.world.current).length ∧
      tsUdpLen ∣ result.2.2.length ∧ result.2.2.length ≤ dataBuffSize) := by
  have counted : Counted s.world.ring (s.world.stream s.world.current) := sound.consistent.incarnations s.world.current
  have head : tsPackLen ∣ s.world.ring.dataCount := by
    rw [counted.counted]
    exact sound.packets s.world.current
  dsimp only
  rcases sound.consistent.get_cases r dataBuffSize tsUdpLen now with
    ⟨_,result⟩ | ⟨_,_,_,result⟩ | ⟨anchored,same,_,_,_,result⟩
  · rw [result]
    exact ⟨head,fun some => absurd rfl some⟩
  · rw [result]
    exact ⟨head,fun some => absurd rfl some⟩
  · have follows := sound.consistent.readers r anchored
    rw [same] at follows
    have behind := follows.behind
    have lag : s.world.lag r = (s.world.stream s.world.current).length - (s.world.readers r).dataCount := by
      rw [World.lag,same]
    have ready := copyDataLen_le_ready (s.world.lag r) dataBuffSize tsUdpLen
    have size := copyDataLen_le_size (s.world.lag r) dataBuffSize tsUdpLen
    have whole : tsUdpLen ∣ copyDataLen (s.world.lag r) dataBuffSize tsUdpLen := by
      unfold copyDataLen
      rw [if_pos (by decide)]
      exact Nat.dvd_mul_left _ _
    rw [result]
    generalize copyDataLen (s.world.lag r) dataBuffSize tsUdpLen = copy at ready size whole ⊢
    have copied : (slice (s.world.stream s.world.current) (s.world.readers r).dataCount copy).length = copy := by
      rw [slice_length]
      omega
    dsimp only
    rw [copied]
    refine ⟨Nat.dvd_add sound.reader (Nat.dvd_trans tsUdpLen_packets whole),fun _ => ⟨rfl,?_,whole,size⟩⟩
    omega

theorem Sound.drained (sound : Sound r s) (small : s.role.dataLen - s.role.dataPos < tsUdpLen) :
    s.role.dataLen = s.role.dataPos := by
  have rest : tsUdpLen ∣ s.role.dataLen - s.role.dataPos := Nat.dvd_sub sound.whole sound.position
  have none := Nat.eq_zero_of_dvd_of_lt rest small
  have ordered := sound.ordered
  omega

theorem Sound.leave (sound : Sound r s) (ret : Option Nat) : Sound r (s.leave ret) :=
  {sound with}

/-- The role's read on an empty stage, as far as the ring and the reads go. -/
structure Fetched (r : Nat) (s next : State) (bytes : List UInt8) : Prop where
  consistent : next.world.Consistent
  stream : next.world.stream = s.world.stream
  reader : tsPackLen ∣ (next.world.readers r).dataCount
  buffer : next.role.data.length = dataBuffSize
  copied : slice next.role.data 0 bytes.length = bytes
  sent : next.sent = s.sent
  reads : next.reads = s.sent.flatMap Message.bytes ++ bytes
  cursor : next.role.dataPos = 0 ∧ next.role.dataLen = 0
  origin : next.origin = s.origin

theorem Sound.get (sound : Sound r s) (empty : s.role.dataLen = 0) (now : Int) {bytes : List UInt8} {next : State}
    (got : s.get r now = some (bytes,next)) :
    bytes = (s.world.getResult r dataBuffSize tsUdpLen now).2.2 ∧ Fetched r s next bytes := by
  have start : s.role.dataPos = 0 := Nat.eq_zero_of_le_zero (empty ▸ sound.ordered)
  have read : s.sent.flatMap Message.bytes = s.reads := by
    have accounted := sound.accounted
    rw [empty,start,Nat.sub_zero,slice_zero,List.append_nil] at accounted
    exact accounted
  obtain ⟨packet,some⟩ := sound.read now
  have fits : (s.world.getResult r dataBuffSize tsUdpLen now).2.2.length ≤ s.role.data.length := by
    rw [sound.buffer]
    by_cases none : (s.world.getResult r dataBuffSize tsUdpLen now).2.2 = []
    · rw [none]
      exact Nat.zero_le _
    · exact (some none).2.2.2
  unfold State.get at got
  split at got
  · cases got
    refine ⟨rfl,?_⟩
    constructor
    · exact sound.consistent.get r dataBuffSize tsUdpLen now
    · rfl
    · change tsPackLen ∣ (Function.update s.world.readers r _ r).dataCount
      rw [Function.update_self]
      exact packet
    · exact (splice_length _ _ _ (by rw [Nat.zero_add]; exact fits)).trans sound.buffer
    · exact slice_splice _ _ _ (Nat.zero_le _)
    · rfl
    · rw [read]
    · exact ⟨start,empty⟩
    · rfl
  · cases got

theorem Fetched.none {next : State} (fetched : Fetched r s next []) (sound : Sound r s) : Sound r next := by
  obtain ⟨position,empty⟩ := fetched.cursor
  constructor
  · exact fetched.consistent
  · rw [fetched.stream]
    exact sound.packets
  · exact fetched.reader
  · exact fetched.buffer
  · rw [position]
    exact Nat.zero_le _
  · rw [empty]
    exact Nat.zero_le _
  · rw [position]
    exact Nat.dvd_zero _
  · rw [empty]
    exact Nat.dvd_zero _
  · rw [fetched.origin]
    exact sound.origin
  · exact fun some => absurd empty some
  · rw [empty,slice_zero,slice_zero]
  · rw [fetched.sent,fetched.reads,position,empty,Nat.sub_zero,slice_zero]
  · rw [fetched.sent,fetched.stream]
    exact sound.messages

theorem Fetched.stage {next : State} {bytes : List UInt8} (fetched : Fetched r s next bytes) (sound : Sound r s)
    {offset : Nat} (aligned : tsPackLen ∣ offset)
    (batch : Nat) (now : Int) (read : bytes = slice (s.world.stream s.world.current) offset bytes.length)
    (inside : offset + bytes.length ≤ (s.world.stream s.world.current).length) (whole : tsUdpLen ∣ bytes.length)
    (fits : bytes.length ≤ dataBuffSize) : Sound r (next.stage batch bytes.length (s.world.current,offset) now) := by
  constructor
  · exact fetched.consistent
  · change ∀ g, tsPackLen ∣ (next.world.stream g).length
    rw [fetched.stream]
    exact sound.packets
  · exact fetched.reader
  · exact fetched.buffer
  · exact Nat.zero_le _
  · exact fits
  · exact Nat.dvd_zero _
  · exact whole
  · exact aligned
  · intro _
    change _ ≤ (next.world.stream _).length
    rw [fetched.stream]
    exact inside
  · change slice next.role.data 0 bytes.length = slice (next.world.stream _) _ _
    rw [fetched.stream,fetched.copied]
    exact read
  · change next.sent.flatMap Message.bytes ++ slice next.role.data 0 (bytes.length - 0) = next.reads
    rw [fetched.sent,fetched.reads,Nat.sub_zero,fetched.copied]
  · change ∀ m ∈ next.sent, _ ∧ _ ≤ (next.world.stream _).length ∧ _ = slice (next.world.stream _) _ _
    rw [fetched.sent,fetched.stream]
    exact sound.messages

theorem Sound.drain (sound : Sound r s) (batch : Nat) (now : Int) : Sound r (s.drain r batch now) := by
  unfold State.drain
  split
  · exact sound.leave _
  split
  · exact sound.leave _
  split
  · rename_i small
    have empty : s.role.dataLen = 0 := Nat.eq_zero_of_dvd_of_lt sound.whole small
    cases got : s.get r now with
    | none => exact sound.leave _
    | some result =>
      obtain ⟨bytes,next⟩ := result
      obtain ⟨same,fetched⟩ := sound.get empty now got
      dsimp only
      split
      · rename_i none
        subst none
        exact (fetched.none sound).leave _
      · rename_i some
        obtain ⟨_,read⟩ := sound.read now
        rw [← same] at read
        obtain ⟨read,inside,whole,fits⟩ := read some
        exact fetched.stage sound sound.reader batch now read inside whole fits
  · exact {sound with}

theorem Sound.message (sound : Sound r s) (room : tsUdpLen ≤ s.role.dataLen - s.role.dataPos) :
    tsPackLen ∣ s.nextMessage.offset ∧
      s.nextMessage.offset + tsUdpLen ≤ (s.world.stream s.nextMessage.generation).length ∧
      s.nextMessage.bytes = slice (s.world.stream s.nextMessage.generation) s.nextMessage.offset tsUdpLen := by
  have positive : 0 < tsUdpLen := by decide
  have within : s.role.dataPos + tsUdpLen ≤ s.role.dataLen := by omega
  have inside := sound.inside (by omega)
  refine ⟨?_,?_,?_⟩
  · exact Nat.dvd_add sound.origin (Nat.dvd_trans tsUdpLen_packets sound.position)
  · change s.origin.2 + s.role.dataPos + tsUdpLen ≤ (s.world.stream s.origin.1).length
    omega
  · calc slice s.role.data s.role.dataPos tsUdpLen
      _ = slice (slice s.role.data 0 s.role.dataLen) s.role.dataPos tsUdpLen := by
        rw [slice_slice _ _ within,Nat.zero_add]
      _ = slice (slice (s.world.stream s.origin.1) s.origin.2 s.role.dataLen) s.role.dataPos tsUdpLen := by
        rw [sound.staged]
      _ = slice (s.world.stream s.origin.1) (s.origin.2 + s.role.dataPos) tsUdpLen := slice_slice _ _ within

theorem Sound.accept (sound : Sound r s) (room : tsUdpLen ≤ s.role.dataLen - s.role.dataPos) :
    Sound r {s with
      sent := s.sent ++ [s.nextMessage]
      writeSize := s.writeSize + tsUdpLen
      role := {s.role with dataPos := s.role.dataPos + tsUdpLen,backpressureStuckSinceMs := 0}} := by
  have ordered := sound.ordered
  have positive : 0 < tsUdpLen := by decide
  have message := sound.message room
  refine {sound with ordered := ?_,position := ?_,accounted := ?_,messages := ?_}
  · change s.role.dataPos + tsUdpLen ≤ s.role.dataLen
    omega
  · exact Nat.dvd_add sound.position (Nat.dvd_refl _)
  · have rest : s.role.dataLen - s.role.dataPos = tsUdpLen + (s.role.dataLen - (s.role.dataPos + tsUdpLen)) := by omega
    have accounted := sound.accounted
    rw [rest,← slice_append] at accounted
    rw [List.flatMap_append,List.flatMap_singleton,List.append_assoc]
    exact accounted
  · intro m member
    rcases List.mem_append.mp member with old | new
    · exact sound.messages m old
    · rw [List.mem_singleton.mp new]
      exact message

theorem Sound.backpressure (sound : Sound r s) (now : Int) : Sound r (s.backpressure now) := by
  unfold State.backpressure
  dsimp only
  generalize (if s.role.backpressureStuckSinceMs = 0 then now else s.role.backpressureStuckSinceMs) = since
  split <;> exact {sound with}

theorem Sound.write (sound : Sound r s) (batch : Nat) (outcome : Outcome) (now : Int) :
    Sound r (s.write batch outcome now) := by
  unfold State.write
  split
  · rename_i room
    split
    · exact sound.leave _
    · cases outcome with
      | accepted => exact sound.accept room
      | asyncSnd => exact sound.backpressure now
      | failed => exact sound.leave _
      | short => exact sound.leave _
  · rename_i small
    split
    · exact sound.leave _
    · have level := sound.drained (Nat.lt_of_not_le small)
      have accounted := sound.accounted
      rw [level,Nat.sub_self,slice_zero] at accounted
      refine {sound with ordered := ?_,fits := ?_,position := ?_,whole := ?_,inside := ?_,staged := ?_,accounted := ?_}
      · exact Nat.le_refl _
      · exact Nat.zero_le _
      · exact Nat.dvd_zero _
      · exact Nat.dvd_zero _
      · exact fun some => absurd rfl some
      · rw [slice_zero,slice_zero]
      · rw [Nat.sub_self,slice_zero]
        exact accounted

theorem State.start_sound (r : Nat) (now : Int) (role : Role) : Sound r (State.start now role) where
  consistent := World.start_consistent now
  packets := fun _ => Nat.dvd_zero _
  reader := Nat.dvd_zero _
  buffer := List.length_replicate
  ordered := Nat.le_refl _
  fits := Nat.zero_le _
  position := Nat.dvd_zero _
  whole := Nat.dvd_zero _
  origin := Nat.dvd_zero _
  inside := fun some => absurd rfl some
  staged := rfl
  accounted := rfl
  messages := fun _ member => by cases member

def viewer : Role := ⟨[],0,0,120,0,0,0,⟨0,0,1000,0⟩⟩

end SrtLiveServer.Egress
