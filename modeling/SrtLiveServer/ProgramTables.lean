import SrtLiveServer.PatParsers
import SrtLiveServer.TimecodeFraming
import SrtLiveServer.TimecodeKeyUnit

/-! How the timecode scanner comes to know the video stream: program map sections, as a
multiplexer writes them and as the scanner reads them, and what it makes of a stream
that it has never seen before. -/
namespace SrtLiveServer.ProgramTables
open AnnexB Bytes Checked Timecode PatParsers

section Sections

/-- An elementary stream of a program map, with its descriptors. -/
structure Stream where
  streamType : UInt8
  reservedPid : Fin (2 ^ 3)
  pid : Fin (2 ^ 13)
  reservedInfo : Fin (2 ^ 4)
  info : Text
  short : info.length < 2 ^ 12

def Stream.bytes (s : Stream) : Text :=
  [s.streamType,UInt8.ofNat (s.reservedPid * 32 + s.pid / 256),UInt8.ofNat (s.pid % 256),
    UInt8.ofNat (s.reservedInfo * 16 + s.info.length / 256),UInt8.ofNat (s.info.length % 256)] ++ s.info

def Stream.named (s : Stream) : Nat × Codec := (s.pid,codecOf s.streamType)

/-- `header` stands between the length and the program's own descriptors. -/
structure PmtSection where
  flags : Fin (2 ^ 4)
  header : Text
  reserved : Fin (2 ^ 4)
  programInfo : Text
  streams : List Stream
  crc : Text
  headerSize : header.length = 7
  short : programInfo.length < 2 ^ 12
  crcSize : crc.length = 4

def PmtSection.body (s : PmtSection) : Text :=
  s.header ++ (UInt8.ofNat (s.reserved * 16 + s.programInfo.length / 256)::UInt8.ofNat (s.programInfo.length % 256)::s.programInfo) ++
    s.streams.flatMap Stream.bytes

def PmtSection.sectionLength (s : PmtSection) : Nat := s.body.length + 4

def PmtSection.table (s : PmtSection) : Text :=
  0x02::UInt8.ofNat (s.flags * 16 + s.sectionLength / 256)::UInt8.ofNat (s.sectionLength % 256)::s.body

def PmtSection.bytes (s : PmtSection) : Text := s.table ++ s.crc

def isVideo (named : Nat × Codec) : Bool := named.2 ≠ .none

/-- The first stream of a codec that the scanner knows. -/
def PmtSection.video (s : PmtSection) : Option (Nat × Codec) := (s.streams.map Stream.named).find? isVideo

structure PmtPacket where
  bytes : Text
  pid : Nat
  filler : Text
  sect : PmtSection
  stuffing : Text
  isPacket : IsPacket bytes pid true (UInt8.ofNat filler.length::(filler ++ (sect.bytes ++ stuffing)))

/-- The first program of a section. -/
def firstProgram (packet : PatPacket) : Option Nat := (programPids (packet.sect.programs.map Program.entry)).head?

theorem Stream.fields (front rest : Text) (s : Stream) :
    readAt (front ++ (s.bytes ++ rest)) front.length = .ok s.streamType ∧
      wordAt (front ++ (s.bytes ++ rest)) (front.length + 1) 32 = .ok s.pid ∧
      wordAt (front ++ (s.bytes ++ rest)) (front.length + 3) 16 = .ok s.info.length := by
  have reservedPid := s.reservedPid.isLt
  have pid := s.pid.isLt
  have reservedInfo := s.reservedInfo.isLt
  have short := s.short
  refine ⟨readAt_append_cons front _ _,?_,?_⟩
  · rw [wordAt,readAt_append,Nat.add_assoc,readAt_append]
    show Except.ok _ = _
    simp only [UInt8.toNat_ofNat']
    congr 1
    omega
  · rw [wordAt,readAt_append,Nat.add_assoc,readAt_append]
    show Except.ok _ = _
    simp only [UInt8.toNat_ofNat']
    congr 1
    omega

theorem Stream.bytes_length (s : Stream) : s.bytes.length = 5 + s.info.length := by
  unfold Stream.bytes
  rw [List.length_append]
  rfl

/-- The loop of `parse_pmt` stops at the first stream of a known codec. -/
theorem pmtFrom_first (streams : List Stream) (front : Text) (st : State) (bound : Nat) (enough : streams.length < bound) :
    pmtFrom (front ++ streams.flatMap Stream.bytes) st bound front.length =
      .ok (st.afterPmt ((streams.map Stream.named).find? isVideo)) := by
  induction streams generalizing front bound with
  | nil =>
    obtain ⟨bound,rfl⟩ : ∃ n, bound = n + 1 := ⟨bound - 1,by omega⟩
    rw [pmtFrom,if_neg (by simp)]
    rfl
  | cons s rest ih =>
    obtain ⟨bound,rfl⟩ : ∃ n, bound = n + 1 := ⟨bound - 1,by omega⟩
    rw [List.flatMap_cons]
    obtain ⟨typed,pid,info⟩ := s.fields front (rest.flatMap Stream.bytes)
    have five : front.length + 5 ≤ (front ++ (s.bytes ++ rest.flatMap Stream.bytes)).length := by
      rw [List.length_append,List.length_append,s.bytes_length]
      omega
    have later := ih (front ++ s.bytes) bound (by simp only [List.length_cons] at enough; omega)
    rw [List.append_assoc,List.length_append,s.bytes_length] at later
    rw [pmtFrom,if_pos five,typed,ok_bind,pid,ok_bind,info,ok_bind,List.map_cons]
    dsimp only
    by_cases known : codecOf s.streamType ≠ .none
    · rw [if_pos known,List.find?_cons_of_pos (show isVideo s.named = true from decide_eq_true known)]
      rfl
    · rw [if_neg known,later,List.find?_cons_of_neg (show ¬ isVideo s.named = true from fun yes => known (of_decide_eq_true yes))]

variable (packet : PmtPacket)

theorem PmtSection.body_length (s : PmtSection) :
    s.body.length = 9 + s.programInfo.length + (s.streams.flatMap Stream.bytes).length := by
  unfold PmtSection.body
  rw [List.length_append,List.length_append,s.headerSize,List.length_cons,List.length_cons]
  omega

theorem PmtPacket.small : packet.sect.body.length + packet.filler.length < 184 := by
  obtain ⟨_,_,_,_,shape,whole,_⟩ := packet.isPacket
  rw [shape] at whole
  unfold PmtSection.bytes PmtSection.table at whole
  simp only [List.length_cons,List.length_append] at whole
  omega

theorem parsePmt_first (st : State) :
    parsePmt (UInt8.ofNat packet.filler.length::(packet.filler ++ (packet.sect.bytes ++ packet.stuffing))) st =
      .ok (st.afterPmt packet.sect.video) := by
  have small := packet.small
  have size := packet.sect.body_length
  have infoShort := packet.sect.short
  have reserved := packet.sect.reserved.isLt
  have found : psiSection (UInt8.ofNat packet.filler.length::(packet.filler ++ (packet.sect.bytes ++ packet.stuffing))) 0x02 =
      .ok (some packet.sect.table) :=
    psiSection_whole (by omega) rfl (by omega) (show packet.sect.body.length + 4 < _ by omega) packet.sect.crcSize
  have front : ∃ front : Text, packet.sect.table = front ++ packet.sect.streams.flatMap Stream.bytes ∧
      front.length = 12 + packet.sect.programInfo.length := by
    refine ⟨0x02::UInt8.ofNat (packet.sect.flags * 16 + packet.sect.sectionLength / 256)::
      UInt8.ofNat (packet.sect.sectionLength % 256)::(packet.sect.header ++
        (UInt8.ofNat (packet.sect.reserved * 16 + packet.sect.programInfo.length / 256)::
          UInt8.ofNat (packet.sect.programInfo.length % 256)::packet.sect.programInfo)),rfl,?_⟩
    simp only [List.length_cons,List.length_append,packet.sect.headerSize]
    omega
  have word : wordAt packet.sect.table 10 16 = .ok packet.sect.programInfo.length := by
    have ten : (0x02::UInt8.ofNat (packet.sect.flags * 16 + packet.sect.sectionLength / 256)::
        UInt8.ofNat (packet.sect.sectionLength % 256)::packet.sect.header).length = 10 := by
      simp only [List.length_cons,packet.sect.headerSize]
    have shape : packet.sect.table = (0x02::UInt8.ofNat (packet.sect.flags * 16 + packet.sect.sectionLength / 256)::
        UInt8.ofNat (packet.sect.sectionLength % 256)::packet.sect.header) ++
        (UInt8.ofNat (packet.sect.reserved * 16 + packet.sect.programInfo.length / 256)::
          UInt8.ofNat (packet.sect.programInfo.length % 256)::(packet.sect.programInfo ++ packet.sect.streams.flatMap Stream.bytes)) := by
      unfold PmtSection.table PmtSection.body
      simp only [List.cons_append,List.append_assoc]
    rw [wordAt,shape,← ten,readAt_append_cons,ok_bind,readAt_append]
    show Except.ok _ = _
    simp only [UInt8.toNat_ofNat']
    congr 1
    omega
  obtain ⟨front,split,frontSize⟩ := front
  have long : packet.sect.table.length = packet.sect.body.length + 3 := rfl
  have few : packet.sect.streams.length ≤ (packet.sect.streams.flatMap Stream.bytes).length := by
    have each : ∀ streams : List Stream, streams.length ≤ (streams.flatMap Stream.bytes).length := by
      intro streams
      induction streams with
      | nil => exact Nat.le_refl _
      | cons s rest ih =>
        rw [List.flatMap_cons,List.length_append,s.bytes_length,List.length_cons]
        omega
    exact each _
  have first := pmtFrom_first packet.sect.streams front st (packet.sect.table.length + 1) (by omega)
  rw [frontSize,← split] at first
  unfold parsePmt
  rw [found,ok_bind]
  dsimp only
  rw [if_neg (by omega),word,ok_bind]
  exact first

theorem scanPacket_pmt {st : State} (known : (packet.pid : Int) = st.pmtPid) (notPat : packet.pid ≠ 0) (notNull : packet.pid ≠ 0x1FFF) :
    scanPacket packet.bytes st = .ok (st.afterPmt packet.sect.video,0) := by
  rw [scanPacket_own packet.isPacket notNull st,route,if_neg notPat,if_pos known,if_pos rfl,parsePmt_first]
  rfl

end Sections

section Histories

/-- A packet that is no PAT, or one whose first program has its map on this PID. -/
def NamesProgram (pmtPid : Nat) (p : Text) : Prop :=
  OtherPacket p 0 ∨ ∃ packet : PatPacket, packet.bytes = p ∧ firstProgram packet = some pmtPid

/-- A packet of another PID, or a program map that names this video stream first. -/
def NamesVideo (pmtPid : Nat) (named : Nat × Codec) (p : Text) : Prop :=
  OtherPacket p pmtPid ∨ ∃ packet : PmtPacket, packet.bytes = p ∧ packet.pid = pmtPid ∧ packet.sect.video = some named

variable {st : State} {pmtPid pid : Nat} {codec : Codec} {p : Text}

theorem feedVideoPacket_map (sound : st.Sound) (payload : Text) (pusi : Bool) :
    Yields (feedVideoPacket payload pusi st) fun result => st.SameMap result.1 := by
  have full : ∀ {grown : State} (size : Nat) (middle : State), st.SameMap middle → grown.Filled → middle.Grown size grown →
      Yields (flushFull grown) fun result => st.SameMap result.1 := by
    intro grown size middle map filled ⟨pts,isOpen,au,same,_⟩
    have map' : st.SameMap grown := by
      rw [same]
      exact map
    unfold flushFull
    exact Yields.ite (fun _ => (auFlush_yields filled).imp fun _ flushed => map'.trans flushed.map) fun _ => Yields.pure map'
  unfold feedVideoPacket
  refine Yields.ite (fun _ => ?_) fun _ => ?_
  · refine (auFlush_yields sound.toFilled).bind fun ⟨flushed,first⟩ ⟨kept,_,map,_⟩ => ?_
    have fresh : State.Filled {flushed with auPts := invalidPts} := ⟨kept.short,kept.closed,kept.mapped,kept.sps,kept.sane⟩
    refine (pesHeader_yields fresh payload).bind fun opened ⟨filled,grown⟩ => ?_
    exact (full _ {flushed with auPts := invalidPts} map filled grown).bind fun _ map' => Yields.pure map'
  · refine Yields.ite (fun isOpen => ?_) fun _ => full 0 st ⟨rfl,rfl,rfl⟩ sound.toFilled (State.Grown.same st 0)
    exact (auAppend_yields sound.toFilled isOpen payload).bind fun _ ⟨filled,grown⟩ => full _ st ⟨rfl,rfl,rfl⟩ filled grown

theorem afterPmt_map (st : State) (named : Option (Nat × Codec)) :
    (st.afterPmt named).pmtPid = st.pmtPid ∧
      (∀ pid codec, named = some (pid,codec) → (st.afterPmt named).videoPid = pid ∧ (st.afterPmt named).codec = codec) := by
  cases named with
  | none => exact ⟨rfl,fun _ _ nothing => nomatch nothing⟩
  | some named =>
    obtain ⟨pid,codec⟩ := named
    unfold State.afterPmt
    dsimp only
    split
    · refine ⟨rfl,fun _ _ same => ?_⟩
      cases same
      exact ⟨rfl,rfl⟩
    · rename_i known
      refine ⟨rfl,fun _ _ same => ?_⟩
      cases same
      obtain ⟨videoPid,codec⟩ := not_or.mp known
      exact ⟨(not_not.mp videoPid).symm,(not_not.mp codec).symm⟩

theorem scanPacket_keeps_program (sound : st.Sound) (whole : p.length = 188) (names : NamesProgram pmtPid p)
    (known : st.pmtPid = pmtPid) : Yields (scanPacket p st) fun result => result.1.Sound ∧ result.1.pmtPid = pmtPid := by
  obtain ⟨result,scanned,sound'⟩ := scanPacket_yields sound whole
  refine ⟨result,scanned,sound',?_⟩
  obtain ⟨b0,b1,b2,b3,rest,shape,whole,different⟩ | ⟨packet,rfl,program⟩ := names
  · obtain passed | ⟨hasPayload,pusi,payload,routed⟩ := scanPacket_cases shape whole
    · rw [passed] at scanned
      cases scanned
      exact known
    · have notPat : b1.toNat % 32 * 256 + b2.toNat ≠ 0 := different.resolve_right (by omega)
      rw [routed,route,if_neg notPat] at scanned
      split at scanned
      · obtain ⟨named,names⟩ := parsePmt_names payload
        rw [names,ok_bind] at scanned
        split at scanned
        · cases scanned
          exact (afterPmt_map st named).1.trans known
        · cases scanned
          exact known
      · split at scanned
        · obtain ⟨_,fed,map⟩ := feedVideoPacket_map sound payload pusi
          rw [fed] at scanned
          cases scanned
          exact map.1.trans known
        · cases scanned
          exact known
  · rw [scanPacket_first] at scanned
    cases scanned
    rw [show (programPids (packet.sect.programs.map Program.entry)).head? = some pmtPid from program]
    exact afterPat_pmtPid st (some pmtPid)

theorem scanPackets_through {first second : List Text} (middle : State → Prop) {final : State → Prop}
    (step : ∀ p ∈ first, ∀ st, middle st → Yields (scanPacket p st) fun result => middle result.1)
    (later : ∀ st, middle st → Yields (scanPackets second st) final) (start : middle st) :
    Yields (scanPackets (first ++ second) st) final := by
  induction first generalizing st with
  | nil => exact later st start
  | cons p first ih =>
    obtain ⟨⟨st',_⟩,scanned,kept⟩ := step p List.mem_cons_self st start
    rw [List.cons_append,scanPackets,scanned,ok_bind]
    exact ih (fun p' among => step p' (List.mem_cons_of_mem p among)) kept

/-- Tables that name what is known already, and packets of no interest, leave the map. -/
theorem keepsMap_of_names (known : st.pmtPid = pmtPid) (video : st.videoPid = pid) (same : st.codec = codec) (proper : pmtPid ≠ 0 ∧ pmtPid ≠ 0x1FFF)
    (program : NamesProgram pmtPid p) (stream : NamesVideo pmtPid (pid,codec) p) (other : OtherPacket p pid) : KeepsMap st p := by
  intro st' count scanned
  obtain notPat | ⟨packet,rfl,program⟩ := program
  · obtain notPmt | ⟨packet,rfl,own,named⟩ := stream
    · obtain ⟨b0,b1,b2,b3,rest,shape,whole,different⟩ := notPat
      obtain passed | ⟨hasPayload,pusi,payload,routed⟩ := scanPacket_cases shape whole
      · rw [passed] at scanned
        cases scanned
        exact ⟨rfl,rfl,rfl⟩
      · have apart : ∀ {other}, OtherPacket p other → b1.toNat % 32 * 256 + b2.toNat ≠ other := by
          intro other ⟨c0,c1,c2,c3,rest',shape',_,different⟩
          rw [shape] at shape'
          injection shape' with _ tail
          injection tail with same1 tail
          injection tail with same2 tail
          injection tail with same3 _
          subst same1 same2 same3
          exact different.resolve_right (by omega)
        have notPat : b1.toNat % 32 * 256 + b2.toNat ≠ 0 := different.resolve_right (by omega)
        have notPmt : ¬ ((b1.toNat % 32 * 256 + b2.toNat : Nat) : Int) = st.pmtPid := by
          rw [known]
          exact fun equal => apart notPmt (Int.ofNat.inj equal)
        have notVideo : ¬ (((b1.toNat % 32 * 256 + b2.toNat : Nat) : Int) = st.videoPid ∧ st.codec ≠ .none) := by
          rw [video]
          exact fun equal => apart other (Int.ofNat.inj equal.1)
        rw [routed,route,if_neg notPat,if_neg notPmt,if_neg notVideo] at scanned
        cases scanned
        exact ⟨rfl,rfl,rfl⟩
    · rw [scanPacket_pmt packet (by rw [own,known]) (by rw [own]; exact proper.1) (by rw [own]; exact proper.2),named] at scanned
      cases scanned
      have map := afterPmt_map st (some (pid,codec))
      obtain ⟨videoPid,codec⟩ := map.2 pid codec rfl
      exact ⟨map.1,videoPid.trans video.symm,codec.trans same.symm⟩
  · rw [scanPacket_first,show (programPids (packet.sect.programs.map Program.entry)).head? = some pmtPid from program] at scanned
    cases scanned
    rw [show st.afterPat (some pmtPid) = st from if_neg (not_not.mpr known.symm)]
    exact ⟨rfl,rfl,rfl⟩

/-- Whatever the scanner has seen before: once a PAT and then the map of its first program
have come, the next access unit that is read alike in every state yields its timecode. -/
theorem timecode_from_tables {calls : List Text} {before between packets : List Text} {pat : PatPacket} {pmt : PmtPacket}
    {pid pts : Nat} {codec : Codec} {tc : ClockTimestamp} {whole : Text}
    (short : ∀ data ∈ calls, data.length < 188 * (2147483647 / 188))
    (stream : calls.flatMap packetsOf = before ++ pat.bytes::(between ++ pmt.bytes::packets))
    (program : firstProgram pat = some pmt.pid) (video : pmt.sect.video = some (pid,codec))
    (proper : pmt.pid ≠ 0 ∧ pmt.pid ≠ 0x1FFF) (own : pid ≠ 0 ∧ pid ≠ 0x1FFF ∧ pid ≠ pmt.pid)
    (learning : ∀ p ∈ between, NamesProgram pmt.pid p)
    (steady : ∀ p ∈ packets, NamesProgram pmt.pid p ∧ NamesVideo pmt.pid (pid,codec) p)
    (sane : tc.hours < 24 ∧ tc.minutes < 60 ∧ tc.seconds < 60) (fits : pts < 2 ^ 33)
    (unit : SelfContained tc codec whole) (carried : Carried whole pts pid packets) :
    ∃ states final updates, scanCalls calls State.init = .ok states ∧ states.getLast? = some final ∧
      final.Published tc pts updates := by
  have isSane : isPlausible tc = true := by simpa [isPlausible,and_assoc] using sane
  have sizes : ∀ p ∈ before ++ pat.bytes::(between ++ pmt.bytes::packets), p.length = 188 := by
    rw [← stream]
    intro p among
    obtain ⟨data,_,inside⟩ := List.mem_flatMap.mp among
    exact packetsOf_whole inside
  have known : codec ≠ .none := by
    have found : isVideo (pid,codec) = true := List.find?_some video
    exact of_decide_eq_true found
  have ran : Yields (scanPackets (before ++ pat.bytes::(between ++ pmt.bytes::packets)) State.init)
      fun final => ∃ updates, final.Published tc pts updates := by
    refine scanPackets_through State.Sound (fun p among st sound => ?_) (fun st sound => ?_) State.init_sound
    · exact scanPacket_yields sound (sizes p (by simp [among]))
    obtain ⟨⟨learned,_⟩,scanned,sound⟩ := scanPacket_yields sound (sizes pat.bytes (by simp))
    rw [scanPackets,scanned,ok_bind]
    rw [scanPacket_first,show (programPids (pat.sect.programs.map Program.entry)).head? = some pmt.pid from program] at scanned
    cases scanned
    refine scanPackets_through (fun st => st.Sound ∧ st.pmtPid = pmt.pid) (fun p among st held => ?_) (fun st held => ?_)
      ⟨sound,afterPat_pmtPid st (some pmt.pid)⟩
    · exact scanPacket_keeps_program held.1 (sizes p (by simp [among])) (learning p among) held.2
    obtain ⟨sound,isPmt⟩ := held
    obtain ⟨⟨mapped,_⟩,scanned,sound⟩ := scanPacket_yields sound (sizes pmt.bytes (by simp))
    rw [scanPackets,scanned,ok_bind]
    rw [scanPacket_pmt pmt isPmt.symm proper.1 proper.2,video] at scanned
    cases scanned
    obtain ⟨kept,named⟩ := afterPmt_map st (some (pid,codec))
    obtain ⟨videoPid,isCodec⟩ := named pid codec rfl
    have isMapped : (st.afterPmt (some (pid,codec))).Mapped pid :=
      ⟨videoPid,by rw [isCodec]; exact known,own.1,by rw [kept,isPmt]; exact fun equal => own.2.2 (Int.ofNat.inj equal),own.2.1⟩
    obtain ⟨⟨flushed,pending⟩,flush,isFlushed⟩ := auFlush_yields sound.toFilled
    have commits := unit.commits isFlushed.sound (isFlushed.map.2.2.trans isCodec) isSane
    have keeps : ∀ p ∈ packets, OtherPacket p pid → KeepsMap (st.afterPmt (some (pid,codec))) p := fun p among other =>
      keepsMap_of_names (kept.trans isPmt) videoPid isCodec proper (steady p among).1 (steady p among).2 other
    exact (scanPackets_carried sound isMapped flush commits fits carried keeps).imp fun _ published => ⟨_,published⟩
  obtain ⟨final,run,updates,published⟩ := ran
  rw [← stream] at run
  obtain ⟨states,called,last⟩ := scanCalls_packets short run
  have nonempty : calls ≠ [] := by
    rintro rfl
    exact absurd stream.symm (by simp)
  exact ⟨states,final,updates,called,last nonempty,published⟩

def keyTiming : PicTiming sampleSps.carried where
  fieldBased := false
  countingType := List.replicate 5 false
  form := .full
  discontinuity := false
  timeOffset := List.replicate 24 false
  counting := rfl
  cpbRemoval := List.replicate 24 false
  dpbOutput := List.replicate 24 false
  picStruct := 0
  clocks := 1
  absent := 0
  ctType := [false,false]
  delays := show (List.replicate 24 false).length = 24 ∧ (List.replicate 24 false).length = 24 from ⟨rfl,rfl⟩
  known := rfl
  present := Nat.zero_lt_one
  scanned := rfl
  offset := rfl

theorem keyTimed_ended : ∃ last, ([0x80] : Text).getLast? = some last ∧ last ≠ 0 := ⟨0x80,rfl,by decide⟩

def keyTimed : TimedUnit .h264 sampleSps.carried sampleTimecode where
  units := []
  zeros := 0
  header := [0x06]
  messages := []
  payload := [0,0,0,0,0,0,0x08,0x04,0x05,0x0C,0x20,0x80,0x00,0x00,0x40]
  rest := [0x80]
  after := []
  isNal := fun _ none => nomatch none
  untimed := fun _ none => nomatch none
  isSei := ⟨0x06,rfl,rfl⟩
  others := fun _ none => nomatch none
  holds := ⟨keyTiming,[true,false,false,false,false,false,false],by decide,trivial,by decide⟩
  ended := keyTimed_ended
  inside := by decide

/-- An access unit delimiter, a parameter set and its timecode. -/
def keyUnit : KeyUnit .h264 sampleTimecode where
  sps := sampleSps
  leading := [(1,[0x09,0x10])]
  zeros := 1
  header := 0x67
  rbsp := [0x42,0xC0,0x1E,0xDA,0x7A,0x0C,0x03,0x5E,0xF7,0xC1,0x40]
  unit := keyTimed
  isNal := by
    intro nal among
    rw [List.mem_singleton] at among
    subst among
    exact ⟨((escape_clean []).cons_of_ne (by decide)).cons_of_ne (by decide),0x10,rfl,by decide⟩
  others := by
    intro nal among
    rw [List.mem_singleton] at among
    subst among
    intro b0 first
    cases first
    decide
  isSps := rfl
  isRbsp := ⟨6,by decide⟩
  ended := ⟨0x40,rfl,by decide⟩
  timed := rfl
  inside := by decide

theorem videoPid_lt : 0x100 < 2 ^ 13 := by decide

def patSection : PatSection :=
  {twoPrograms.sect with programs := [⟨⟨3,by decide⟩,⟨6,by decide⟩,⟨0x1000,by decide⟩⟩]}

def patPacket : PatPacket :=
  ⟨stuffed 0x40 0x00 (0::([] ++ (patSection.bytes ++ []))),[],patSection,[],stuffed_isPacket (by decide) (by decide) (by decide)⟩

/-- Audio with a descriptor, and H.264 behind it. -/
def pmtSection : PmtSection :=
  ⟨⟨0xA,by decide⟩,[0x00,0x01,0xC1,0x00,0x00,0xE1,0x00],⟨0xF,by decide⟩,[],
    [⟨0x0F,⟨6,by decide⟩,⟨0x102,by decide⟩,⟨0xF,by decide⟩,[0x0A,0x00],by decide⟩,
      ⟨0x1B,⟨6,by decide⟩,⟨0x100,videoPid_lt⟩,⟨0xF,by decide⟩,[],by decide⟩],[1,2,3,4],rfl,by decide,rfl⟩

def pmtPacket : PmtPacket :=
  ⟨stuffed 0x50 0x00 (0::([] ++ (pmtSection.bytes ++ []))),0x1000,[],pmtSection,[],stuffed_isPacket (by decide) (by decide) (by decide)⟩

def keyPacket : Text := stuffed 0x41 0x00 (samplePes.bytes 90000 ++ keyUnit.bytes)

theorem timecode_from_tables_key_unit : ∃ states final updates,
    scanCalls [[patPacket.bytes,pmtPacket.bytes,keyPacket,sampleNext].flatten] State.init = .ok states ∧
      states.getLast? = some final ∧ final.Published sampleTimecode (90000 : Nat) updates := by
  have isKey : IsPacket keyPacket 0x100 true (samplePes.bytes 90000 ++ keyUnit.bytes) :=
    stuffed_isPacket (by decide) (by decide) (by decide)
  have sizes : ∀ p ∈ [patPacket.bytes,pmtPacket.bytes,keyPacket,sampleNext], p.length = 188 := by
    simp [patPacket.isPacket.short.2,pmtPacket.isPacket.short.2,isKey.short.2,sampleNext_isPacket.short.2]
  have whole : [patPacket.bytes,pmtPacket.bytes,keyPacket,sampleNext].flatten.length = 752 := by
    simp only [List.flatten_cons,List.flatten_nil,List.length_append,patPacket.isPacket.short.2,pmtPacket.isPacket.short.2,
      isKey.short.2,sampleNext_isPacket.short.2,List.length_nil]
  have carried : Carried keyUnit.bytes 90000 0x100 [keyPacket,sampleNext] :=
    ⟨samplePes,keyUnit.bytes,[],[0x00],(List.append_nil _).symm,.own isKey (.own sampleNext_isPacket .nil)⟩
  have others : ∀ p ∈ [keyPacket,sampleNext], OtherPacket p 0 ∧ OtherPacket p 0x1000 := by
    intro p among
    simp only [List.mem_cons,List.not_mem_nil,or_false] at among
    obtain rfl | rfl := among
    · exact ⟨⟨_,_,_,_,_,rfl,isKey.short.2,.inl (by decide)⟩,⟨_,_,_,_,_,rfl,isKey.short.2,.inl (by decide)⟩⟩
    · exact ⟨⟨_,_,_,_,_,rfl,sampleNext_isPacket.short.2,.inl (by decide)⟩,⟨_,_,_,_,_,rfl,sampleNext_isPacket.short.2,.inl (by decide)⟩⟩
  refine @timecode_from_tables _ [] [] [keyPacket,sampleNext] patPacket pmtPacket 0x100 90000 .h264 sampleTimecode keyUnit.bytes
    (fun data among => ?_) ?_ rfl rfl (by decide) (by decide) (fun p none => nomatch none) (fun p among => ?_) (by decide) (by decide)
    (.h264 keyUnit) carried
  · rw [List.mem_singleton.mp among,whole]
    decide
  · rw [List.flatMap_singleton,packetsOf_flatten sizes]
    rfl
  · exact ⟨.inl (others p among).1,.inl (others p among).2⟩

end Histories

end SrtLiveServer.ProgramTables
