import SrtLiveServer.TimecodeUnit

/-! A timecode from the sender's SEI message to the state of the scanner, through PES
header, TS packets and calls. -/
namespace SrtLiveServer.Timecode
open Bytes Checked Bits AnnexB

section Pes

theorem readPts_eq {lead pts : Nat} (nibble : lead < 16) (fits : pts < 2 ^ 33) (more : Text) :
    readPts (ptsBytes lead pts ++ more) = .ok (pts : Int) := by
  show Except.ok _ = _
  repeat rw [UInt8.toNat_ofNat_of_lt' (show _ < 256 by omega)]
  congr 2
  omega

theorem auAppend_eq {st : State} (short : st.au.length ≤ auPrefixMax) (data : Text) :
    auAppend st data = .ok {st with au := (st.au ++ data).take auPrefixMax} := by
  have taken : (st.au ++ data).take auPrefixMax = st.au ++ data.take (auPrefixMax - st.au.length) := by
    rw [List.take_append,List.take_of_length_le short]
  have room : (data.take (auPrefixMax - st.au.length)).length ≤ auPrefixMax - st.au.length := List.length_take_le _ _
  rw [auAppend,taken]
  split
  · rename_i empty
    rw [List.eq_nil_of_length_eq_zero empty,List.append_nil]
    rfl
  · rw [if_pos (by omega)]
    rfl

theorem pesHeader_eq (pes : Pes) {pts : Nat} (fits : pts < 2 ^ 33) (chunk : Text) (st : State) :
    pesHeader (pes.bytes pts ++ chunk) st = auAppend {st with auPts := pts,auOpen := true} chunk := by
  have short := pes.short
  have headerLen : (UInt8.ofNat (5 + pes.extra.length)).toNat = 5 + pes.extra.length := UInt8.toNat_ofNat_of_lt' (show _ < 256 by omega)
  generalize fixed : [0,0,1,pes.streamId,pes.packetLength.1,pes.packetLength.2,pes.flags,pes.ptsDtsFlags,
    UInt8.ofNat (5 + pes.extra.length)] = start
  have nine : start.length = 9 := by rw [← fixed]; rfl
  have shape : pes.bytes pts ++ chunk = start ++ (ptsBytes pes.lead pts ++ (pes.extra ++ chunk)) := by
    rw [Pes.bytes,fixed]
    simp only [List.append_assoc]
  have total : (pes.bytes pts ++ chunk).length = 9 + (5 + pes.extra.length) + chunk.length := by
    rw [shape]
    simp only [List.length_append,nine,ptsBytes,List.length_cons,List.length_nil]
    omega
  have stamp : window (pes.bytes pts ++ chunk) 9 ((pes.bytes pts ++ chunk).length - 9) =
      .ok (ptsBytes pes.lead pts ++ (pes.extra ++ chunk)) := by
    have found := window_rest start (ptsBytes pes.lead pts ++ (pes.extra ++ chunk))
    rw [← shape,nine] at found
    exact found
  have content : window (pes.bytes pts ++ chunk) (9 + (5 + pes.extra.length))
      ((pes.bytes pts ++ chunk).length - (9 + (5 + pes.extra.length))) = .ok chunk := by
    have found := window_rest (pes.bytes pts) chunk
    have size : (pes.bytes pts).length = 9 + (5 + pes.extra.length) := by
      rw [List.length_append] at total
      omega
    rw [size] at found
    exact found
  have video : ¬ (pes.streamId < 0xE0 ∨ 0xEF < pes.streamId) := by
    rw [not_or,UInt8.not_lt,UInt8.not_lt]
    exact pes.video
  have timed := pes.timed
  have read : ∀ i b, start[i]? = some b → readAt (pes.bytes pts ++ chunk) i = .ok b := by
    intro i b known
    have inside : i < start.length := (List.getElem?_eq_some_iff.mp known).1
    unfold readAt
    rw [shape,List.getElem?_append_left inside,known]
  have b0 := read 0 0 (by rw [← fixed]; rfl)
  have b1 := read 1 0 (by rw [← fixed]; rfl)
  have b2 := read 2 1 (by rw [← fixed]; rfl)
  have b3 := read 3 pes.streamId (by rw [← fixed]; rfl)
  have b7 := read 7 pes.ptsDtsFlags (by rw [← fixed]; rfl)
  have b8 := read 8 (UInt8.ofNat (5 + pes.extra.length)) (by rw [← fixed]; rfl)
  have present : (pes.ptsDtsFlags.toNat / 64 = 2 ∧ 5 ≤ 5 + pes.extra.length) ∨
      (pes.ptsDtsFlags.toNat / 64 = 3 ∧ 10 ≤ 5 + pes.extra.length) := by omega
  unfold pesHeader
  rw [if_neg (by omega),b0,ok_bind,b1,ok_bind,b2,ok_bind,if_neg (by decide),b3,ok_bind,if_neg video,b7,ok_bind,b8,ok_bind]
  dsimp only
  rw [headerLen,if_neg (by omega),if_pos present,stamp,ok_bind,readPts_eq pes.nibble fits,ok_bind,content,ok_bind]

end Pes

section Feed

def State.collecting (st : State) (pts : Int) (au : Text) : State := {st with auPts := pts,auOpen := true,au := au}

structure State.Published (st : State) (tc : ClockTimestamp) (pts : Int) (updates : Nat) : Prop where
  valid : st.valid = true
  timecode : st.timecode = tc
  pts : st.pts = pts
  updates : st.updates = updates

variable {flushed : State} {tc : ClockTimestamp} {pts : Int}

/-- The access unit has been scanned; the rest of it is not kept. -/
structure State.Committed (flushed : State) (tc : ClockTimestamp) (pts : Int) (st : State) : Prop where
  published : st.Published tc pts ((flushed.updates + 1) % 2 ^ 64)
  map : flushed.SameMap st
  closed : st.auOpen = false
  empty : st.au = []

/-- However it is stamped, an access unit of these bytes ends in this timecode. -/
def State.Commits (flushed : State) (tc : ClockTimestamp) (whole : Text) : Prop :=
  ∀ pts, Yields (auFlush (flushed.collecting pts (whole.take auPrefixMax))) fun result => flushed.Committed tc pts result.1

theorem State.Commits.of_scan {whole : Text} (nonempty : (whole.take auPrefixMax).length ≠ 0)
    (scans : ∀ pts, Yields (scanAuPrefix (flushed.collecting pts (whole.take auPrefixMax))) fun result =>
      (flushed.collecting pts (whole.take auPrefixMax)).Walked result ∧ result.2 = some tc) : flushed.Commits tc whole := by
  intro pts
  unfold auFlush
  refine Yields.ite (fun empty => absurd empty nonempty) fun _ => ?_
  refine (scans pts).bind fun ⟨st',found⟩ ⟨walked,isFound⟩ => ?_
  dsimp only at isFound
  rw [isFound]
  have others := walked.others
  dsimp only at others
  have counted : st'.updates = flushed.updates := walked.updates
  refine Yields.pure ⟨⟨rfl,rfl,?_,?_⟩,walked.map,rfl,rfl⟩
  · show st'.auPts = pts
    rw [others]
    rfl
  · show (st'.updates + 1) % 2 ^ 64 = _
    rw [counted]

theorem auFlush_timed (ready : flushed.Ready) (sane : isPlausible tc = true) (unit : TimedUnit flushed.codec flushed.sps tc) :
    flushed.Commits tc unit.bytes := by
  refine State.Commits.of_scan ?_ fun pts => ?_
  · obtain ⟨seen,after,split,_⟩ := buffer_split unit unit.inside
    rw [split]
    simp only [List.length_append,startCode_length]
    omega
  · have collected : (flushed.collecting pts (unit.bytes.take auPrefixMax)).Ready := ready
    exact scanAuPrefix_timed collected sane unit rfl

/-- After the bytes `es` of the access unit. -/
def State.Progress (flushed : State) (tc : ClockTimestamp) (pts : Int) (es : Text) (st : State) : Prop :=
  (es.length < auPrefixMax ∧ st = flushed.collecting pts es) ∨ (auPrefixMax ≤ es.length ∧ flushed.Committed tc pts st)

theorem State.Progress.map {es : Text} {st : State} (progress : flushed.Progress tc pts es st) : flushed.SameMap st := by
  obtain ⟨_,rfl⟩ | ⟨_,committed⟩ := progress
  · exact ⟨rfl,rfl,rfl⟩
  · exact committed.map

theorem feed_more {whole : Text} (commits : flushed.Commits tc whole)
    {es chunk later : Text} (cut : whole = es ++ (chunk ++ later)) {st : State} (progress : flushed.Progress tc pts es st) :
    Yields (feedVideoPacket chunk false st) fun result => flushed.Progress tc pts (es ++ chunk) result.1 := by
  unfold feedVideoPacket
  rw [if_neg (by decide)]
  obtain ⟨room,rfl⟩ | ⟨full,committed⟩ := progress
  · have isOpen : (flushed.collecting pts es).auOpen = true := rfl
    rw [if_pos isOpen]
    have appended : auAppend (flushed.collecting pts es) chunk =
        .ok (flushed.collecting pts ((es ++ chunk).take auPrefixMax)) := auAppend_eq (Nat.le_of_lt room) chunk
    rw [appended,ok_bind,flushFull]
    by_cases fits : (es ++ chunk).length < auPrefixMax
    · rw [List.take_of_length_le (Nat.le_of_lt fits),if_neg fun full => absurd fits (Nat.not_lt.mpr full.2)]
      exact Yields.pure (.inl ⟨fits,rfl⟩)
    · have full : auPrefixMax ≤ (es ++ chunk).length := Nat.le_of_not_lt fits
      have kept : (es ++ chunk).take auPrefixMax = whole.take auPrefixMax := by
        rw [cut,← List.append_assoc,List.take_append_of_le_length full]
      have filled : auPrefixMax ≤ (whole.take auPrefixMax).length := by
        rw [← kept,List.length_take]
        omega
      rw [kept,if_pos ⟨rfl,filled⟩]
      exact (commits pts).imp fun _ committed => .inr ⟨full,committed⟩
  · rw [if_neg (by rw [committed.closed]; decide),flushFull,if_neg fun both => by rw [committed.closed] at both; cases both.1]
    refine Yields.pure (.inr ⟨?_,committed⟩)
    rw [List.length_append]
    omega

theorem feed_first {st : State} (sound : st.Sound) {pending : Nat} (flush : auFlush st = .ok (flushed,pending)) (pes : Pes)
    {stamp : Nat} (fits : stamp < 2 ^ 33) {chunk : Text} (short : chunk.length < auPrefixMax) :
    feedVideoPacket (pes.bytes stamp ++ chunk) true st = .ok (flushed.collecting stamp chunk,pending) := by
  obtain ⟨result,ran,kept,closed,_⟩ := auFlush_yields sound.toFilled
  rw [flush] at ran
  cases ran
  have empty : flushed.au = [] := kept.closed closed
  have opened : auAppend {flushed with auPts := (stamp : Int),auOpen := true} chunk = .ok (flushed.collecting stamp chunk) := by
    have room : State.au {flushed with auPts := (stamp : Int),auOpen := true} = [] := empty
    rw [auAppend_eq (by rw [room]; exact Nat.zero_le _),room,List.nil_append,List.take_of_length_le (Nat.le_of_lt short)]
    rfl
  have notFull : ¬ ((flushed.collecting stamp chunk).auOpen = true ∧ auPrefixMax ≤ (flushed.collecting stamp chunk).au.length) :=
    fun full => absurd short (Nat.not_lt.mpr full.2)
  unfold feedVideoPacket
  rw [if_pos rfl,flush,ok_bind]
  dsimp only
  rw [pesHeader_eq pes fits,opened,ok_bind,flushFull,if_neg notFull]
  rfl

/-- The next start of a payload unit commits the access unit, unless it has been already. -/
theorem feed_next {whole : Text} (commits : flushed.Commits tc whole)
    {st : State} (sound : st.Sound) (progress : flushed.Progress tc pts whole st) {next : Text}
    (short : next.length < auPrefixMax) :
    Yields (feedVideoPacket next true st) fun result =>
      result.1.Published tc pts ((flushed.updates + 1) % 2 ^ 64) ∧ flushed.SameMap result.1 := by
  have flush : Yields (auFlush st) fun result => flushed.Committed tc pts result.1 := by
    obtain ⟨room,rfl⟩ | ⟨_,committed⟩ := progress
    · have committed := commits pts
      rw [List.take_of_length_le (Nat.le_of_lt room)] at committed
      exact committed
    · unfold auFlush
      rw [if_pos (by rw [committed.empty]; rfl)]
      exact Yields.pure ⟨⟨committed.published.valid,committed.published.timecode,committed.published.pts,
        committed.published.updates⟩,committed.map,rfl,rfl⟩
  obtain ⟨⟨committed,count⟩,ran,isCommitted⟩ := flush
  obtain ⟨_,ran',kept,_⟩ := auFlush_yields sound.toFilled
  rw [ran] at ran'
  cases ran'
  have fresh : State.Filled {committed with auPts := invalidPts} :=
    ⟨kept.short,kept.closed,kept.mapped,kept.sps,kept.sane⟩
  unfold feedVideoPacket
  rw [if_pos rfl,ran,ok_bind]
  dsimp only
  refine (pesHeader_yields fresh next).bind fun opened ⟨_,grown⟩ => ?_
  obtain ⟨pts',isOpen,au,rfl,size⟩ := grown
  have room : au.length < auPrefixMax := by
    have empty : committed.au.length = 0 := by rw [isCommitted.empty]; rfl
    have size : au.length ≤ committed.au.length + next.length := size
    omega
  rw [flushFull,if_neg fun full => absurd room (Nat.not_lt.mpr full.2)]
  refine Yields.pure ⟨⟨?_,?_,?_,?_⟩,isCommitted.map⟩
  · exact isCommitted.published.valid
  · exact isCommitted.published.timecode
  · exact isCommitted.published.pts
  · exact isCommitted.published.updates

end Feed

section Packets

/-- The header of a packet, as a parser reads it: the payload begins at `start`. -/
structure PacketHeader (p : Text) (pid : Nat) (pusi : Bool) (payload : Text) (b1 b3 b4 : UInt8) (start : Nat) : Prop where
  sync : readAt p 0 = .ok 0x47
  second : readAt p 1 = .ok b1
  word : wordAt p 1 32 = .ok pid
  fourth : readAt p 3 = .ok b3
  fifth : readAt p 4 = .ok b4
  noError : b1.toNat < 128
  unitStart : pusi = true ↔ b1.toNat / 64 % 2 = 1
  control : b3.toNat / 16 % 4 = 1 ∨ b3.toNat / 16 % 4 = 3
  behind : (if b3.toNat / 16 % 4 / 2 = 1 then 4 + (1 + b4.toNat) else 4) = start
  total : start + payload.length = 188
  positive : 0 < payload.length
  cut : window p start (188 - start) = .ok payload

theorem IsPacket.header {p payload : Text} {pid : Nat} {pusi : Bool} (own : IsPacket p pid pusi payload) :
    ∃ b1 b3 b4 start, PacketHeader p pid pusi payload b1 b3 b4 start := by
  obtain ⟨b1,b2,b3,field,shape,whole,nonempty,noError,pidRead,unitStart,adaptation⟩ := own
  have total : 4 + field.length + payload.length = 188 := by
    rw [← whole,shape]
    simp
    omega
  have fifth : ∃ b4, readAt p 4 = .ok b4 ∧ (if b3.toNat / 16 % 4 / 2 = 1 then 4 + (1 + b4.toNat) else 4) = 4 + field.length := by
    obtain ⟨payloadOnly,rfl⟩ | ⟨both,content,rfl⟩ := adaptation
    · refine ⟨_,readAt_eq (by omega),?_⟩
      rw [if_neg (by omega)]
      rfl
    · have small : content.length < 256 := by
        rw [List.length_cons] at total
        omega
      refine ⟨UInt8.ofNat content.length,by rw [shape]; rfl,?_⟩
      rw [if_pos (by omega),UInt8.toNat_ofNat_of_lt' small,List.length_cons]
      omega
  obtain ⟨b4,fifth,behind⟩ := fifth
  refine ⟨b1,b3,b4,4 + field.length,?_,?_,?_,?_,fifth,noError,unitStart,adaptation.imp And.left And.left,behind,total,
    List.length_pos_iff.mpr nonempty,?_⟩
  · rw [shape]
    rfl
  · rw [shape]
    rfl
  · rw [← pidRead,shape]
    rfl
  · rw [shape]
    rfl
  · have found := window_rest (0x47::b1::b2::b3::field) payload
    have start : (0x47::b1::b2::b3::field).length = 4 + field.length := by simp; omega
    have joined : (0x47::b1::b2::b3::field) ++ payload = p := shape.symm
    rw [joined,start,whole] at found
    exact found

theorem scanPacket_own {p payload : Text} {pid : Nat} {pusi : Bool} (own : IsPacket p pid pusi payload) (notNull : pid ≠ 0x1FFF)
    (st : State) : scanPacket p st = route pid pusi payload st := by
  obtain ⟨b1,b3,b4,start,header⟩ := own.header
  have noError := header.noError
  have control := header.control
  have total := header.total
  have positive := header.positive
  have starts : decide (b1.toNat / 64 % 2 = 1) = pusi := by
    have unitStart := header.unitStart
    cases pusi <;> simpa using unitStart
  have pos : (if b3.toNat / 16 % 4 / 2 = 1 then do pure (4 + (1 + (← readAt p 4).toNat)) else pure 4) =
      (Except.ok start : Except Fault Nat) := by
    rw [← header.behind,header.fifth]
    split
    · rfl
    · rfl
  unfold scanPacket
  rw [header.sync,ok_bind,if_neg (by decide),header.second,ok_bind,if_neg (by omega),header.word,ok_bind,if_neg notNull,
    header.fourth,ok_bind]
  dsimp only
  rw [if_neg (by omega),pos,ok_bind,if_neg (by omega),header.cut,ok_bind,starts]

theorem scanPacket_cases {p rest : Text} {b0 b1 b2 b3 : UInt8} (shape : p = b0::b1::b2::b3::rest) (whole : p.length = 188) :
    (∀ st, scanPacket p st = .ok (st,0)) ∨
      (b3.toNat / 16 % 2 = 1 ∧ ∃ pusi payload, ∀ st, scanPacket p st = route (b1.toNat % 32 * 256 + b2.toNat) pusi payload st) := by
  have word : wordAt p 1 32 = .ok (b1.toNat % 32 * 256 + b2.toNat) := by rw [shape]; rfl
  have r0 : readAt p 0 = .ok b0 := by rw [shape]; rfl
  have r1 : readAt p 1 = .ok b1 := by rw [shape]; rfl
  have r3 : readAt p 3 = .ok b3 := by rw [shape]; rfl
  have posYields : Yields (if b3.toNat / 16 % 4 / 2 = 1 then do pure (4 + (1 + (← readAt p 4).toNat)) else pure 4)
      fun _ => True :=
    Yields.ite (fun _ => (readAt_yields (by omega)).bind fun _ _ => Yields.pure trivial) fun _ => Yields.pure trivial
  obtain ⟨pos,posRead,_⟩ := posYields
  unfold scanPacket
  simp only [r0,r1,r3,word,posRead,ok_bind]
  by_cases sync : b0 ≠ 0x47
  · left
    intro st
    rw [if_pos sync]
    rfl
  by_cases error : b1.toNat / 128 = 1
  · left
    intro st
    rw [if_neg sync,if_pos error]
    rfl
  by_cases null : b1.toNat % 32 * 256 + b2.toNat = 0x1FFF
  · left
    intro st
    rw [if_neg sync,if_neg error,if_pos null]
    rfl
  by_cases noPayload : b3.toNat / 16 % 4 % 2 = 0
  · left
    intro st
    rw [if_neg sync,if_neg error,if_neg null,if_pos noPayload]
    rfl
  by_cases empty : 188 ≤ pos
  · left
    intro st
    rw [if_neg sync,if_neg error,if_neg null,if_neg noPayload,if_pos empty]
    rfl
  · right
    have inside : pos + (188 - pos) ≤ p.length := by omega
    obtain ⟨payload,cut,_⟩ := window_yields inside
    refine ⟨by omega,decide (b1.toNat / 64 % 2 = 1),payload,fun st => ?_⟩
    rw [if_neg sync,if_neg error,if_neg null,if_neg noPayload,if_neg empty,cut,ok_bind]

def State.afterPat (st : State) : Option Nat → State
  | none => st
  | some pmtPid => if (pmtPid : Int) ≠ st.pmtPid then st.newProgram pmtPid else st

theorem patFrom_names (s : Text) (bound q : Nat) (some : 0 < bound) (enough : s.length < bound + q) :
    ∃ named, ∀ st, patFrom s st bound q = .ok (st.afterPat named) := by
  induction bound generalizing q with
  | zero => omega
  | succ bound ih =>
    by_cases four : q + 4 ≤ s.length
    · obtain ⟨programNumber,number,_⟩ := wordAt_yields (s := s) (q := q) 256 (by omega)
      obtain ⟨pmtPid,pid,_⟩ := wordAt_yields (s := s) (q := q + 2) 32 (by omega)
      by_cases network : programNumber = 0
      · obtain ⟨named,later⟩ := ih (q + 4) (by omega) (by omega)
        refine ⟨named,fun st => ?_⟩
        rw [patFrom,if_pos four,number,ok_bind,if_pos network,later]
      · refine ⟨.some pmtPid,fun st => ?_⟩
        rw [patFrom,if_pos four,number,ok_bind,if_neg network,pid]
        rfl
    · refine ⟨none,fun st => ?_⟩
      rw [patFrom,if_neg four]
      rfl

theorem parsePat_names (payload : Text) : ∃ named, ∀ st, parsePat payload st = .ok (st.afterPat named) := by
  obtain ⟨sect,found,_⟩ := psiSection_yields payload 0x00
  unfold parsePat
  cases sect with
  | none =>
    refine ⟨none,fun st => ?_⟩
    rw [found]
    rfl
  | some s =>
    obtain ⟨named,names⟩ := patFrom_names s (s.length + 1) 8 (by omega) (by omega)
    refine ⟨named,fun st => ?_⟩
    rw [found,ok_bind]
    exact names st

def State.afterPmt (st : State) : Option (Nat × Codec) → State
  | none => st
  | some (videoPid,codec) => if (videoPid : Int) ≠ st.videoPid ∨ codec ≠ st.codec then st.newVideo videoPid codec else st

theorem pmtFrom_names (s : Text) (bound q : Nat) (some : 0 < bound) (enough : s.length < bound + q) :
    ∃ named, ∀ st, pmtFrom s st bound q = .ok (st.afterPmt named) := by
  induction bound generalizing q with
  | zero => omega
  | succ bound ih =>
    by_cases five : q + 5 ≤ s.length
    · have inside : q < s.length := by omega
      obtain ⟨streamType,typed,_⟩ := readAt_yields inside
      obtain ⟨elementaryPid,pid,_⟩ := wordAt_yields (s := s) (q := q + 1) 32 (by omega)
      obtain ⟨esInfoLength,info,_⟩ := wordAt_yields (s := s) (q := q + 3) 16 (by omega)
      by_cases known : codecOf streamType ≠ .none
      · refine ⟨.some (elementaryPid,codecOf streamType),fun st => ?_⟩
        rw [pmtFrom,if_pos five,typed,ok_bind,pid,ok_bind,info,ok_bind]
        dsimp only
        rw [if_pos known]
        rfl
      · obtain ⟨named,later⟩ := ih (q + (5 + esInfoLength)) (by omega) (by omega)
        refine ⟨named,fun st => ?_⟩
        rw [pmtFrom,if_pos five,typed,ok_bind,pid,ok_bind,info,ok_bind]
        dsimp only
        rw [if_neg known,later]
    · refine ⟨none,fun st => ?_⟩
      rw [pmtFrom,if_neg five]
      rfl

theorem parsePmt_names (payload : Text) : ∃ named, ∀ st, parsePmt payload st = .ok (st.afterPmt named) := by
  obtain ⟨sect,found,_⟩ := psiSection_yields payload 0x02
  unfold parsePmt
  cases sect with
  | none =>
    refine ⟨none,fun st => ?_⟩
    rw [found]
    rfl
  | some s =>
    by_cases short : s.length < 12
    · refine ⟨none,fun st => ?_⟩
      rw [found,ok_bind]
      dsimp only
      rw [if_pos short]
      rfl
    · obtain ⟨programInfoLength,info,_⟩ := wordAt_yields (s := s) (q := 10) 16 (by omega)
      obtain ⟨named,names⟩ := pmtFrom_names s (s.length + 1) (12 + programInfoLength) (by omega) (by omega)
      refine ⟨named,fun st => ?_⟩
      rw [found,ok_bind]
      dsimp only
      rw [if_neg short,info,ok_bind]
      exact names st

/-- Scanned in this state, the packet leaves the program map as it is. -/
def KeepsMap (st : State) (p : Text) : Prop := ∀ st' count, scanPacket p st = .ok (st',count) → st.SameMap st'

theorem State.SameMap.afterPat {st s : State} {named : Option Nat} (same : st.SameMap s)
    (kept : st.SameMap (st.afterPat named)) : s.afterPat named = s := by
  cases named with
  | none => rfl
  | some pmtPid =>
    have known : (pmtPid : Int) = st.pmtPid := by
      by_contra other
      rw [State.afterPat,if_pos other] at kept
      exact other kept.1
    exact if_neg fun other => other (known.trans same.1.symm)

theorem State.SameMap.afterPmt {st s : State} {named : Option (Nat × Codec)} (same : st.SameMap s)
    (kept : st.SameMap (st.afterPmt named)) : s.afterPmt named = s := by
  cases named with
  | none => rfl
  | some named =>
    obtain ⟨videoPid,codec⟩ := named
    have known : ¬ ((videoPid : Int) ≠ st.videoPid ∨ codec ≠ st.codec) := by
      intro other
      rw [State.afterPmt,if_pos other] at kept
      exact other.elim (fun pid => pid kept.2.1) fun codec => codec kept.2.2
    rw [← same.2.1,← same.2.2] at known
    exact if_neg known

theorem scanPacket_other {st : State} {p : Text} {pid : Nat} (video : st.videoPid = pid) (other : OtherPacket p pid)
    (keeps : KeepsMap st p) {s : State} (same : st.SameMap s) : scanPacket p s = .ok (s,0) := by
  obtain ⟨b0,b1,b2,b3,rest,shape,whole,different⟩ := other
  obtain passed | ⟨hasPayload,pusi,payload,routed⟩ := scanPacket_cases shape whole
  · exact passed s
  have otherPid : b1.toNat % 32 * 256 + b2.toNat ≠ pid := different.resolve_right (by omega)
  have mapped := same.1
  have notVideo : ((b1.toNat % 32 * 256 + b2.toNat : Nat) : Int) ≠ s.videoPid := by
    rw [same.2.1,video]
    exact fun equal => otherPid (Int.ofNat.inj equal)
  have skipped : ¬ (((b1.toNat % 32 * 256 + b2.toNat : Nat) : Int) = s.videoPid ∧ s.codec ≠ .none) :=
    fun both => notVideo both.1
  unfold KeepsMap at keeps
  rw [routed] at keeps ⊢
  unfold route at keeps ⊢
  rw [mapped]
  by_cases starts : pusi = true
  · by_cases pat : b1.toNat % 32 * 256 + b2.toNat = 0
    · obtain ⟨named,names⟩ := parsePat_names payload
      rw [if_pos pat,if_pos starts,names,ok_bind] at keeps ⊢
      rw [same.afterPat (keeps _ _ rfl)]
      rfl
    · by_cases pmt : ((b1.toNat % 32 * 256 + b2.toNat : Nat) : Int) = st.pmtPid
      · obtain ⟨named,names⟩ := parsePmt_names payload
        rw [if_neg pat,if_pos pmt,if_pos starts,names,ok_bind] at keeps ⊢
        rw [same.afterPmt (keeps _ _ rfl)]
        rfl
      · rw [if_neg pat,if_neg pmt,if_neg skipped]
        rfl
  · rw [if_neg starts,if_neg starts,if_neg skipped]
    split
    · rfl
    · split
      · rfl
      · rfl

end Packets

section Runs

/-- The program map names this video PID, and no other use of it. -/
structure State.Mapped (st : State) (pid : Nat) : Prop where
  video : st.videoPid = pid
  known : st.codec ≠ .none
  notPat : pid ≠ 0
  notPmt : (pid : Int) ≠ st.pmtPid
  notNull : pid ≠ 0x1FFF

theorem State.Mapped.same {st s : State} {pid : Nat} (mapped : st.Mapped pid) (same : st.SameMap s) : s.Mapped pid where
  video := same.2.1.trans mapped.video
  known := by rw [same.2.2]; exact mapped.known
  notPat := mapped.notPat
  notPmt := by rw [same.1]; exact mapped.notPmt
  notNull := mapped.notNull

theorem State.SameMap.trans {st st' st'' : State} (first : st.SameMap st') (second : st'.SameMap st'') : st.SameMap st'' :=
  ⟨second.1.trans first.1,second.2.1.trans first.2.1,second.2.2.trans first.2.2⟩

theorem State.Mapped.packet {st : State} {p payload : Text} {pid : Nat} {pusi : Bool} (mapped : st.Mapped pid)
    (own : IsPacket p pid pusi payload) : scanPacket p st = feedVideoPacket payload pusi st := by
  rw [scanPacket_own own mapped.notNull,route,if_neg mapped.notPat,if_neg mapped.notPmt,
    if_pos ⟨mapped.video.symm,mapped.known⟩]

theorem IsPacket.short {p payload : Text} {pid : Nat} {pusi : Bool} (own : IsPacket p pid pusi payload) :
    payload.length < auPrefixMax ∧ p.length = 188 := by
  obtain ⟨b1,b2,b3,field,shape,whole,_⟩ := own
  refine ⟨?_,whole⟩
  rw [shape] at whole
  simp at whole
  show payload.length < 8192
  omega

def scanPackets : List Text → State → Except Fault State
  | [],st => pure st
  | p::packets,st => do
    let (st,_) ← scanPacket p st
    scanPackets packets st

variable {st flushed : State} {pid : Nat} {tc : ClockTimestamp} {pts : Int} {packets : List Text}

theorem scanPackets_others (mapped : st.Mapped pid) {payloads : List (Bool × Text)} (stream : Interleaved pid packets payloads)
    (none : payloads = []) (keeps : ∀ p ∈ packets, OtherPacket p pid → KeepsMap st p) {s : State} (same : st.SameMap s) :
    scanPackets packets s = .ok s := by
  induction stream with
  | nil => rfl
  | @other p packets payloads other later ih =>
    rw [scanPackets,scanPacket_other mapped.video other (keeps p (by simp) other) same,ok_bind]
    exact ih none fun p' among => keeps p' (by simp [among])
  | own => cases none

theorem scanPackets_rest (mapped : st.Mapped pid) (map : st.SameMap flushed) {whole : Text} (commits : flushed.Commits tc whole)
    {payloads : List (Bool × Text)} (stream : Interleaved pid packets payloads)
    (keeps : ∀ p ∈ packets, OtherPacket p pid → KeepsMap st p) {chunks : List Text} {next es : Text}
    (carried : payloads = chunks.map (Prod.mk false) ++ [(true,next)]) (cut : whole = es ++ chunks.flatten) {s : State}
    (sound : s.Sound) (progress : flushed.Progress tc pts es s) :
    Yields (scanPackets packets s) fun final => final.Published tc pts ((flushed.updates + 1) % 2 ^ 64) := by
  induction stream generalizing chunks es s with
  | nil => simp at carried
  | @other p packets payloads other later ih =>
    rw [scanPackets,scanPacket_other mapped.video other (keeps p (by simp) other) (map.trans progress.map),ok_bind]
    exact ih (fun p' among => keeps p' (by simp [among])) carried cut sound progress
  | @own p packets pusi payload payloads own later ih =>
    have mapped' := mapped.same (map.trans progress.map)
    obtain ⟨result,scanned,sound'⟩ := scanPacket_yields sound own.short.2
    rw [scanPackets,scanned,ok_bind]
    rw [mapped'.packet own] at scanned
    cases chunks with
    | nil =>
      injection carried with first rest
      cases first
      rw [List.flatten_nil,List.append_nil] at cut
      rw [← cut] at progress
      obtain ⟨_,fed,published,kept⟩ := feed_next commits sound progress own.short.1
      rw [scanned] at fed
      cases fed
      refine ⟨result.1,?_,published⟩
      exact scanPackets_others mapped later rest (fun p' among => keeps p' (by simp [among])) (map.trans kept)
    | cons chunk chunks =>
      injection carried with first rest
      cases first
      obtain ⟨_,fed,progress'⟩ := feed_more commits cut progress
      rw [scanned] at fed
      cases fed
      refine ih (fun p' among => keeps p' (by simp [among])) rest ?_ sound' progress'
      rw [cut,List.flatten_cons,List.append_assoc]

/-- A PES packet with these bytes of an access unit, and the start of the next one. -/
def Carried (whole : Text) (pts pid : Nat) (packets : List Text) : Prop :=
  ∃ (pes : Pes) (chunk : Text) (chunks : List Text) (next : Text), whole = chunk ++ chunks.flatten ∧
    Interleaved pid packets ((true,pes.bytes pts ++ chunk)::(chunks.map (Prod.mk false) ++ [(true,next)]))

theorem scanPackets_carried (sound : st.Sound) (mapped : st.Mapped pid) {pending : Nat}
    (flush : auFlush st = .ok (flushed,pending)) {whole : Text} (commits : flushed.Commits tc whole) {stamp : Nat}
    (fits : stamp < 2 ^ 33) (carried : Carried whole stamp pid packets)
    (keeps : ∀ p ∈ packets, OtherPacket p pid → KeepsMap st p) :
    Yields (scanPackets packets st) fun final => final.Published tc stamp ((flushed.updates + 1) % 2 ^ 64) := by
  obtain ⟨pes,chunk,chunks,next,cut,stream⟩ := carried
  generalize carried : (true,pes.bytes stamp ++ chunk)::(chunks.map (Prod.mk false) ++ [(true,next)]) = payloads at stream
  induction stream with
  | nil => cases carried
  | @other p packets payloads other later ih =>
    rw [scanPackets,scanPacket_other mapped.video other (keeps p (by simp) other) ⟨rfl,rfl,rfl⟩,ok_bind]
    exact ih (fun p' among => keeps p' (by simp [among])) carried
  | @own p packets pusi payload payloads own later ih =>
    injection carried with first rest
    cases first
    have short : chunk.length < auPrefixMax := by
      have whole := own.short.1
      rw [List.length_append] at whole
      omega
    obtain ⟨_,ran,isFlushed⟩ := auFlush_yields sound.toFilled
    rw [flush] at ran
    cases ran
    obtain ⟨result,scanned,sound'⟩ := scanPacket_yields sound own.short.2
    have fed := mapped.packet own
    rw [scanned,feed_first sound flush pes fits short] at fed
    cases fed
    rw [scanPackets,scanned,ok_bind]
    exact scanPackets_rest mapped isFlushed.map commits later (fun p' among => keeps p' (by simp [among])) rest.symm cut
      sound' (.inl ⟨short,rfl⟩)

theorem scanPackets_sent (sound : st.Sound) (mapped : st.Mapped pid) {pending : Nat} (flush : auFlush st = .ok (flushed,pending))
    (ready : flushed.Ready) (sane : isPlausible tc = true) {stamp : Nat} (fits : stamp < 2 ^ 33)
    (sent : Sent flushed.codec flushed.sps tc stamp pid packets)
    (keeps : ∀ p ∈ packets, OtherPacket p pid → KeepsMap st p) :
    Yields (scanPackets packets st) fun final => final.Published tc stamp ((flushed.updates + 1) % 2 ^ 64) := by
  obtain ⟨unit,carried⟩ := sent
  exact scanPackets_carried sound mapped flush (auFlush_timed ready sane unit) fits carried keeps

end Runs

section Calls

theorem packetsOf_drop (data : Text) (k : Nat) :
    (packetsOf data).drop k =
      if 188 * k + 188 ≤ data.length then (data.drop (188 * k)).take 188::(packetsOf data).drop (k + 1) else [] := by
  have size : (packetsOf data).length = data.length / 188 := by simp [packetsOf]
  split
  · have inside : k < (packetsOf data).length := by omega
    rw [List.drop_eq_getElem_cons inside]
    simp [packetsOf]
  · exact List.drop_of_length_le (by omega)

theorem scanFrom_packets {data : Text} (short : data.length < wrapAt) (bound k : Nat) (inside : 188 * k ≤ data.length)
    (enough : data.length < bound + 188 * k) {st final : State} (ran : scanPackets ((packetsOf data).drop k) st = .ok final)
    (decoded : Nat) : ∃ count, scanFrom data bound (188 * k : Nat) st decoded = .ok (final,count) := by
  induction bound generalizing k st decoded with
  | zero => omega
  | succ bound ih =>
    unfold wrapAt at short
    rw [packetsOf_drop] at ran
    split at ran
    · rename_i more
      obtain ⟨⟨st',count⟩,scanned,later⟩ := bind_eq_ok ran
      rw [scanFrom_packet more (by omega),scanned,ok_bind]
      exact ih (k + 1) more (by omega) later (decoded + count)
    · rename_i past
      rw [scanFrom_end (by omega) (by omega)]
      cases ran
      exact ⟨decoded,rfl⟩

theorem scanPackets_append {first second : List Text} {st final : State}
    (ran : scanPackets (first ++ second) st = .ok final) :
    ∃ middle, scanPackets first st = .ok middle ∧ scanPackets second middle = .ok final := by
  induction first generalizing st with
  | nil => exact ⟨st,rfl,ran⟩
  | cons p first ih =>
    obtain ⟨⟨st',count⟩,scanned,later⟩ := bind_eq_ok ran
    obtain ⟨middle,before,after⟩ := ih later
    refine ⟨middle,?_,after⟩
    rw [scanPackets,scanned,ok_bind]
    exact before

theorem scanCalls_packets {calls : List Text} (short : ∀ data ∈ calls, data.length < wrapAt) {st final : State}
    (ran : scanPackets (calls.flatMap packetsOf) st = .ok final) :
    ∃ states, scanCalls calls st = .ok states ∧ (calls ≠ [] → states.getLast? = some final) := by
  induction calls generalizing st with
  | nil => exact ⟨[],rfl,fun nonempty => absurd rfl nonempty⟩
  | cons data calls ih =>
    rw [List.flatMap_cons] at ran
    obtain ⟨middle,first,rest⟩ := scanPackets_append ran
    obtain ⟨count,scanned⟩ := scanFrom_packets (short data (by simp)) (data.length + 1) 0 (Nat.zero_le _) (by omega) first 0
    obtain ⟨states,later,last⟩ := ih (fun data' among => short data' (by simp [among])) rest
    refine ⟨middle::states,?_,fun _ => ?_⟩
    · have scanned : tsScanTimecode data st = .ok (middle,count) := scanned
      rw [scanCalls,scanned,ok_bind]
      dsimp only
      rw [later]
      rfl
    · cases calls with
      | nil =>
        cases later
        cases rest
        rfl
      | cons data' calls =>
        have ends := last (by simp)
        cases states with
        | nil => cases ends
        | cons state states => rw [List.getLast?_cons_cons,ends]

theorem timecode_round_trip {st flushed : State} {pending pid pts : Nat} {tc : ClockTimestamp} {calls : List Text}
    (sound : st.Sound) (mapped : st.Mapped pid) (flush : auFlush st = .ok (flushed,pending))
    (ready : flushed.codec ≠ .hevc → flushed.spsValid = true ∧ flushed.sps.picStructPresent = true)
    (sane : tc.hours < 24 ∧ tc.minutes < 60 ∧ tc.seconds < 60) (fits : pts < 2 ^ 33)
    (short : ∀ data ∈ calls, data.length < 188 * (2147483647 / 188))
    (sent : Sent flushed.codec flushed.sps tc pts pid (calls.flatMap packetsOf))
    (keeps : ∀ p ∈ calls.flatMap packetsOf, OtherPacket p pid → KeepsMap st p) :
    ∃ states final, scanCalls calls st = .ok states ∧ states.getLast? = some final ∧
      final.Published tc pts ((st.updates + pending + 1) % 2 ^ 64) := by
  obtain ⟨_,ran,isFlushed⟩ := auFlush_yields sound.toFilled
  rw [flush] at ran
  cases ran
  have isSane : isPlausible tc = true := by simpa [isPlausible,and_assoc] using sane
  have isReady : flushed.Ready := fun hevc => ⟨(ready hevc).1,(ready hevc).2,isFlushed.sound.sps (ready hevc).1⟩
  obtain ⟨final,run,published⟩ := scanPackets_sent sound mapped flush isReady isSane fits sent keeps
  obtain ⟨states,called,last⟩ := scanCalls_packets short run
  have nonempty : calls ≠ [] := by
    rintro rfl
    obtain ⟨_,_,_,_,_,_,stream⟩ := sent
    cases stream
  refine ⟨states,final,called,last nonempty,published.valid,published.timecode,published.pts,?_⟩
  have counted : flushed.updates % 2 ^ 64 = (st.updates + pending) % 2 ^ 64 := isFlushed.updates
  rw [published.updates]
  omega

end Calls

section Sample

def stuffed (b1 b2 : UInt8) (payload : Text) : Text :=
  0x47::b1::b2::0x30::(UInt8.ofNat (183 - payload.length)::List.replicate (183 - payload.length) 0xFF ++ payload)

theorem stuffed_length {b1 b2 : UInt8} {payload : Text} (short : payload.length ≤ 183) : (stuffed b1 b2 payload).length = 188 := by
  simp [stuffed]
  omega

theorem stuffed_isPacket {b1 b2 : UInt8} {payload : Text} (nonempty : payload ≠ []) (short : payload.length ≤ 183)
    (noError : b1.toNat < 128) :
    IsPacket (stuffed b1 b2 payload) (b1.toNat % 32 * 256 + b2.toNat) (decide (b1.toNat / 64 % 2 = 1)) payload := by
  refine ⟨b1,b2,0x30,UInt8.ofNat (183 - payload.length)::List.replicate (183 - payload.length) 0xFF,rfl,stuffed_length short,nonempty,
    noError,rfl,decide_eq_true_iff,.inr ⟨by decide,List.replicate (183 - payload.length) 0xFF,?_⟩⟩
  rw [List.length_replicate]

theorem IsPacket.not_other {p payload : Text} {pid : Nat} {pusi : Bool} (own : IsPacket p pid pusi payload) :
    ¬ OtherPacket p pid := by
  obtain ⟨b1,b2,b3,field,shape,_,_,_,pidRead,_,adaptation⟩ := own
  intro ⟨b0',b1',b2',b3',rest,shape',_,different⟩
  rw [shape] at shape'
  injection shape' with _ tail
  injection tail with same1 tail
  injection tail with same2 tail
  injection tail with same3 _
  subst same1 same2 same3
  obtain other | none := different
  · exact other pidRead
  · omega

def sampleState : State := {State.init with pmtPid := 0x1000,videoPid := 0x100,codec := .hevc}

def sampleTimecode : ClockTimestamp := ⟨1,2,3,5,false⟩

def sampleSei : TimeCode where
  fieldBased := false
  countingType := [false,false,false,false,false]
  form := .full
  discontinuity := false
  timeOffset := []
  counting := rfl
  numClockTs := 1
  absent := 0
  few := by decide
  present := by decide
  offset := by decide

/-- An access unit delimiter, and an SEI unit with another message before the timecode's. -/
def sampleUnit : TimedUnit .hevc State.init.sps sampleTimecode where
  units := [(1,[0x46,0x01,0x50])]
  zeros := 0
  header := [0x4E,0x01]
  messages := [⟨300,[0xAA]⟩]
  payload := [0x60,0x40,0x28,0x61,0x04,0x10]
  rest := [0x80]
  after := []
  isNal := by
    intro unit among
    rw [List.mem_singleton] at among
    subst among
    have clean : Clean [0x46,0x01,0x50] :=
      (((escape_clean []).cons_of_ne (by decide)).cons_of_ne (by decide)).cons_of_ne (by decide)
    exact ⟨clean,0x50,rfl,by decide⟩
  untimed := by
    intro unit among
    rw [List.mem_singleton] at among
    subst among
    refine .inl fun b0 first => ?_
    cases first
    decide
  isSei := ⟨0x4E,0x01,rfl,by decide,by decide⟩
  others := by
    intro m among
    rw [List.mem_singleton] at among
    subst among
    exact .inl (by decide)
  holds := ⟨sampleSei,[true,false,false,false,false],by decide,trivial,by decide⟩
  ended := ⟨0x80,rfl,by decide⟩
  inside := by decide

def samplePes : Pes where
  streamId := 0xE0
  packetLength := (0,0)
  flags := 0x80
  ptsDtsFlags := 0x80
  lead := 2
  extra := []
  video := by decide
  timed := by decide
  nibble := by decide
  short := by decide

def sampleFirst : Text := stuffed 0x41 0x00 (samplePes.bytes 90000 ++ sampleUnit.bytes)

def sampleNext : Text := stuffed 0x41 0x00 [0x00]

def samplePat (high low : UInt8) : Text :=
  stuffed 0x40 0x00 [0x00,0x00,0xB0,0x0D,0x00,0x01,0xC1,0x00,0x00,0x00,0x01,high,low,0x00,0x00,0x00,0x00]

theorem sampleState_sound : sampleState.Sound where
  short := by decide
  closed := fun _ => rfl
  mapped := by decide
  sps := fun valid => by cases valid
  sane := fun valid => by cases valid
  room := fun isOpen => by cases isOpen

theorem sampleState_mapped : sampleState.Mapped 0x100 := ⟨rfl,by decide,by decide,by decide,by decide⟩

theorem sampleFirst_isPacket : IsPacket sampleFirst 0x100 true (samplePes.bytes 90000 ++ sampleUnit.bytes) :=
  stuffed_isPacket (by decide) (by decide) (by decide)

theorem sampleNext_isPacket : IsPacket sampleNext 0x100 true [0x00] :=
  stuffed_isPacket (by decide) (by decide) (by decide)

theorem samplePat_length (high low : UInt8) : (samplePat high low).length = 188 := stuffed_length (show 17 ≤ 183 by decide)

theorem samplePat_other (high low : UInt8) : OtherPacket (samplePat high low) 0x100 :=
  ⟨_,_,_,_,_,rfl,samplePat_length high low,.inl (by decide)⟩

/-- The access unit in one packet, a PAT, and the next start of a payload unit. -/
def samplePackets (high low : UInt8) : List Text := [sampleFirst,samplePat high low,sampleNext]

theorem samplePackets_sent (high low : UInt8) :
    Sent .hevc State.init.sps sampleTimecode 90000 0x100 (samplePackets high low) := by
  refine ⟨sampleUnit,samplePes,sampleUnit.bytes,[],[0x00],by simp,?_⟩
  exact .own sampleFirst_isPacket (.other (samplePat_other high low) (.own sampleNext_isPacket .nil))

theorem samplePackets_divided (high low : UInt8) : [(samplePackets high low).flatten].flatMap packetsOf = samplePackets high low := by
  have divided : packetsOf (samplePackets high low).flatten = samplePackets high low := by
    refine packetsOf_flatten fun p among => ?_
    simp only [samplePackets,List.mem_cons,List.not_mem_nil,or_false] at among
    obtain rfl | rfl | rfl := among
    · exact sampleFirst_isPacket.short.2
    · exact samplePat_length high low
    · exact sampleNext_isPacket.short.2
  rw [List.flatMap_singleton,divided]

theorem samplePackets_short (high low : UInt8) : (samplePackets high low).flatten.length = 3 * 188 := by
  simp only [samplePackets,List.flatten_cons,List.flatten_nil,List.length_append,samplePat_length,sampleFirst_isPacket.short.2,
    sampleNext_isPacket.short.2,List.length_nil]

theorem samplePat_scanned (high low : UInt8) (st : State) :
    scanPacket (samplePat high low) st = (do
      pure (← parsePat [0x00,0x00,0xB0,0x0D,0x00,0x01,0xC1,0x00,0x00,0x00,0x01,high,low,0x00,0x00,0x00,0x00] st,0)) := by
  have isPat : IsPacket (samplePat high low) 0 true _ := stuffed_isPacket (by simp) (show 17 ≤ 183 by decide) (by decide)
  exact scanPacket_own isPat (by decide) st

theorem samplePat_keeps : KeepsMap sampleState (samplePat 0xF0 0x00) := by
  have ran : scanPacket (samplePat 0xF0 0x00) sampleState = .ok (sampleState,0) := by
    rw [samplePat_scanned]
    rfl
  intro st' count found
  rw [ran] at found
  cases found
  exact ⟨rfl,rfl,rfl⟩

theorem timecode_round_trip_repeated_pat :
    ∃ states final, scanCalls [(samplePackets 0xF0 0x00).flatten] sampleState = .ok states ∧ states.getLast? = some final ∧
      final.Published sampleTimecode (90000 : Nat) ((sampleState.updates + 0 + 1) % 2 ^ 64) := by
  have sent : Sent .hevc State.init.sps sampleTimecode 90000 0x100 ([(samplePackets 0xF0 0x00).flatten].flatMap packetsOf) := by
    rw [samplePackets_divided]
    exact samplePackets_sent 0xF0 0x00
  have flush : auFlush sampleState = .ok (sampleState,0) := rfl
  refine timecode_round_trip sampleState_sound sampleState_mapped flush (fun other => absurd rfl other) (by decide) (by decide) ?_ sent ?_
  · intro data among
    rw [List.mem_singleton] at among
    rw [among,samplePackets_short]
    decide
  · rw [samplePackets_divided]
    intro p among other
    simp only [samplePackets,List.mem_cons,List.not_mem_nil,or_false] at among
    obtain rfl | rfl | rfl := among
    · exact absurd other sampleFirst_isPacket.not_other
    · exact samplePat_keeps
    · exact absurd other sampleNext_isPacket.not_other

/-- A PAT with another PMT PID, between the access unit and its end: the scanner starts
over, and what it had collected is dropped. -/
theorem remapping_pat_drops_timecode :
    sampleState.Sound ∧ sampleState.Mapped 0x100 ∧ auFlush sampleState = .ok (sampleState,0) ∧
      Sent sampleState.codec sampleState.sps sampleTimecode 90000 0x100 ([(samplePackets 0xF0 0x01).flatten].flatMap packetsOf) ∧
      ¬ ∃ states final, scanCalls [(samplePackets 0xF0 0x01).flatten] sampleState = .ok states ∧ states.getLast? = some final ∧
        final.Published sampleTimecode (90000 : Nat) ((sampleState.updates + 0 + 1) % 2 ^ 64) := by
  have flush : auFlush sampleState = .ok (sampleState,0) := rfl
  refine ⟨sampleState_sound,sampleState_mapped,flush,?_,?_⟩
  · rw [samplePackets_divided]
    exact samplePackets_sent 0xF0 0x01
  have first : scanPacket sampleFirst sampleState = .ok (sampleState.collecting (90000 : Nat) sampleUnit.bytes,0) := by
    rw [sampleState_mapped.packet sampleFirst_isPacket]
    exact feed_first sampleState_sound flush samplePes (by decide) (by decide)
  have pat : scanPacket (samplePat 0xF0 0x01) (sampleState.collecting (90000 : Nat) sampleUnit.bytes) =
      .ok ((sampleState.collecting (90000 : Nat) sampleUnit.bytes).newProgram 0x1001,0) := by
    rw [samplePat_scanned]
    rfl
  have next : scanPacket sampleNext ((sampleState.collecting (90000 : Nat) sampleUnit.bytes).newProgram 0x1001) =
      .ok ((sampleState.collecting (90000 : Nat) sampleUnit.bytes).newProgram 0x1001,0) := by
    rw [scanPacket_own sampleNext_isPacket (by decide)]
    rfl
  have run : scanPackets ([(samplePackets 0xF0 0x01).flatten].flatMap packetsOf) sampleState =
      .ok ((sampleState.collecting (90000 : Nat) sampleUnit.bytes).newProgram 0x1001) := by
    rw [samplePackets_divided,samplePackets,scanPackets,first,ok_bind]
    dsimp only
    rw [scanPackets,pat,ok_bind]
    dsimp only
    rw [scanPackets,next]
    rfl
  have short : ∀ data ∈ [(samplePackets 0xF0 0x01).flatten], data.length < wrapAt := by
    intro data among
    rw [List.mem_singleton] at among
    rw [among,samplePackets_short]
    decide
  obtain ⟨states,called,last⟩ := scanCalls_packets short run
  intro ⟨states',final,called',last',published⟩
  rw [called] at called'
  cases called'
  rw [last (by simp)] at last'
  cases last'
  have valid := published.valid
  cases valid

end Sample

end SrtLiveServer.Timecode
