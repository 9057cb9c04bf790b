import SrtLiveServer.AnnexB
import SrtLiveServer.Bits
import SrtLiveServer.Timecode

/-! What a sender makes of a timecode: the SEI payloads of both codecs, the NAL units
around them, an access unit, its PES header and its TS packets. Fields that do not
matter to the timecode are left open. -/
namespace SrtLiveServer.Timecode
open Bytes Bits AnnexB

section Payloads

/-- All of hours, minutes and seconds, or as many as the nested flags say. -/
inductive HmsForm where
  | full
  | nothing
  | seconds
  | minutes
  | hours
deriving DecidableEq

def HmsForm.isFull (form : HmsForm) : Bool := form = .full

def HmsForm.Fits : HmsForm → ClockTimestamp → Prop
  | full,_ => True
  | nothing,tc => tc.hours = 0 ∧ tc.minutes = 0 ∧ tc.seconds = 0
  | seconds,tc => tc.hours = 0 ∧ tc.minutes = 0
  | minutes,tc => tc.hours = 0
  | hours,_ => True

def HmsForm.bits : HmsForm → ClockTimestamp → List Bool
  | full,tc => [toBits 6 tc.seconds,toBits 6 tc.minutes,toBits 5 tc.hours].flatten
  | nothing,_ => [false]
  | seconds,tc => [[true],toBits 6 tc.seconds,[false]].flatten
  | minutes,tc => [[true],toBits 6 tc.seconds,[true],toBits 6 tc.minutes,[false]].flatten
  | hours,tc => [[true],toBits 6 tc.seconds,[true],toBits 6 tc.minutes,[true],toBits 5 tc.hours].flatten

/-- What a clock timestamp has beside the timecode, in both codecs. -/
structure ClockFields where
  fieldBased : Bool
  countingType : List Bool
  form : HmsForm
  discontinuity : Bool
  timeOffset : List Bool
  counting : countingType.length = 5

/-- H.265 D.2.27. -/
structure TimeCode extends ClockFields where
  numClockTs : Nat
  /-- The clock timestamps before, whose flag is not set. -/
  absent : Nat
  few : numClockTs ≤ 3
  present : absent < numClockTs
  offset : timeOffset.length ≤ 31

def TimeCode.stamp (sei : TimeCode) (tc : ClockTimestamp) : List Bool :=
  [[true],[sei.fieldBased],sei.countingType,[sei.form.isFull],[sei.discontinuity],[tc.dropFrame],toBits 9 tc.frames,
    sei.form.bits tc,toBits 5 sei.timeOffset.length,sei.timeOffset].flatten

def TimeCode.bits (sei : TimeCode) (tc : ClockTimestamp) : List Bool :=
  toBits 2 sei.numClockTs ++ (List.replicate sei.absent false ++ sei.stamp tc)

def Sps.Delays (sps : Sps) (cpbRemoval dpbOutput : List Bool) : Prop :=
  if sps.cpbDpbDelaysPresent = true then
    cpbRemoval.length = sps.cpbRemovalDelayLength ∧ dpbOutput.length = sps.dpbOutputDelayLength
  else cpbRemoval = [] ∧ dpbOutput = []

/-- H.264 D.2.3, with the widths of a parameter set. -/
structure PicTiming (sps : Sps) extends ClockFields where
  cpbRemoval : List Bool
  dpbOutput : List Bool
  picStruct : Nat
  clocks : Nat
  absent : Nat
  ctType : List Bool
  delays : sps.Delays cpbRemoval dpbOutput
  known : numClockTs[picStruct]? = some clocks
  present : absent < clocks
  scanned : ctType.length = 2
  offset : timeOffset.length = sps.timeOffsetLength

def PicTiming.stamp {sps : Sps} (sei : PicTiming sps) (tc : ClockTimestamp) : List Bool :=
  [[true],sei.ctType,[sei.fieldBased],sei.countingType,[sei.form.isFull],[sei.discontinuity],[tc.dropFrame],
    toBits 8 tc.frames,sei.form.bits tc,sei.timeOffset].flatten

def PicTiming.bits {sps : Sps} (sei : PicTiming sps) (tc : ClockTimestamp) : List Bool :=
  (sei.cpbRemoval ++ sei.dpbOutput) ++ (toBits 4 sei.picStruct ++ (List.replicate sei.absent false ++ sei.stamp tc))

/-- The payload holds this timecode; further timestamps and alignment bits may follow. -/
def Holds (codec : Codec) (sps : Sps) (payload : Text) (tc : ClockTimestamp) : Prop :=
  if codec = .hevc then
    ∃ (sei : TimeCode) (tail : List Bool), tc.frames < 2 ^ 9 ∧ sei.form.Fits tc ∧ ofBytes payload = sei.bits tc ++ tail
  else
    ∃ (sei : PicTiming sps) (tail : List Bool), tc.frames < 2 ^ 8 ∧ sei.form.Fits tc ∧ ofBytes payload = sei.bits tc ++ tail

/-- The payload is of the kind that holds timecodes, with none of its timestamps there. -/
def Blank (codec : Codec) (sps : Sps) (payload : Text) : Prop :=
  if codec = .hevc then
    ∃ (clocks : Nat) (tail : List Bool), clocks ≤ 3 ∧
      ofBytes payload = toBits 2 clocks ++ List.replicate clocks false ++ tail
  else
    ∃ (cpbRemoval dpbOutput : List Bool) (picStruct clocks : Nat) (tail : List Bool), sps.Delays cpbRemoval dpbOutput ∧
      numClockTs[picStruct]? = some clocks ∧
      ofBytes payload = (cpbRemoval ++ dpbOutput) ++ (toBits 4 picStruct ++ List.replicate clocks false) ++ tail

end Payloads

section Units

structure SeiMessage where
  payloadType : Nat
  payload : Text

/-- A number of an SEI header: 255 for each `0xFF`, and the rest. -/
def byteCode (n : Nat) : Text := List.replicate (n / 255) 0xFF ++ [UInt8.ofNat (n % 255)]

def SeiMessage.bytes (m : SeiMessage) : Text := byteCode m.payloadType ++ (byteCode m.payload.length ++ m.payload)

def SeiMessage.Untimed (m : SeiMessage) (codec : Codec) (sps : Sps) : Prop :=
  m.payloadType ≠ want codec ∨ Blank codec sps m.payload

/-- The header of an SEI NAL unit; in HEVC a temporal id is never zero. -/
def SeiHeader (codec : Codec) (header : Text) : Prop :=
  if codec = .hevc then ∃ b0 b1 : UInt8, header = [b0,b1] ∧ (b0.toNat / 2 % 64 = 39 ∨ b0.toNat / 2 % 64 = 40) ∧ b1 ≠ 0
  else ∃ b0 : UInt8, header = [b0] ∧ b0.toNat % 32 = 6

structure IsNal (nal : Text) : Prop where
  clean : Clean nal
  ended : ∃ last, nal.getLast? = some last ∧ last ≠ 0

/-- A NAL unit that holds neither SEI messages nor, in H.264, a parameter set. -/
def OtherNal (codec : Codec) (nal : Text) : Prop :=
  ∀ b0, nal.head? = some b0 →
    if codec = .hevc then b0.toNat / 2 % 64 ≠ 39 ∧ b0.toNat / 2 % 64 ≠ 40 else b0.toNat % 32 ≠ 6 ∧ b0.toNat % 32 ≠ 7

def UntimedSei (codec : Codec) (sps : Sps) (nal : Text) : Prop :=
  ∃ (header : Text) (messages : List SeiMessage), SeiHeader codec header ∧ (∀ m ∈ messages, m.Untimed codec sps) ∧
    nal = header ++ escape (messages.flatMap SeiMessage.bytes ++ [0x80])

def byteStream (units : List (Nat × Text)) : Text := units.flatMap fun unit => startCode unit.1 ++ unit.2

/-- An access unit that holds a timecode within the prefix that is kept of it. -/
structure TimedUnit (codec : Codec) (sps : Sps) (tc : ClockTimestamp) where
  units : List (Nat × Text)
  zeros : Nat
  header : Text
  messages : List SeiMessage
  payload : Text
  /-- Further messages and the trailing bits. -/
  rest : Text
  after : Text
  isNal : ∀ unit ∈ units, IsNal unit.2
  untimed : ∀ unit ∈ units, OtherNal codec unit.2 ∨ UntimedSei codec sps unit.2
  isSei : SeiHeader codec header
  others : ∀ m ∈ messages, m.Untimed codec sps
  holds : Holds codec sps payload tc
  ended : ∃ last, rest.getLast? = some last ∧ last ≠ 0
  inside : (byteStream units ++ startCode zeros ++ header ++
    escape (messages.flatMap SeiMessage.bytes ++ SeiMessage.bytes ⟨want codec,payload⟩)).length ≤ auPrefixMax

def TimedUnit.timed {codec : Codec} {sps : Sps} {tc : ClockTimestamp} (unit : TimedUnit codec sps tc) : Text :=
  unit.messages.flatMap SeiMessage.bytes ++ SeiMessage.bytes ⟨want codec,unit.payload⟩

def TimedUnit.bytes {codec : Codec} {sps : Sps} {tc : ClockTimestamp} (unit : TimedUnit codec sps tc) : Text :=
  byteStream unit.units ++ startCode unit.zeros ++ unit.header ++ escape (unit.timed ++ unit.rest) ++ unit.after

end Units

section Transport

def ptsBytes (lead pts : Nat) : Text :=
  [UInt8.ofNat (lead * 16 + pts / 2 ^ 30 % 8 * 2 + 1),UInt8.ofNat (pts / 2 ^ 22 % 256),
    UInt8.ofNat (pts / 2 ^ 15 % 128 * 2 + 1),UInt8.ofNat (pts / 2 ^ 7 % 256),UInt8.ofNat (pts % 128 * 2 + 1)]

structure Pes where
  streamId : UInt8
  packetLength : UInt8 × UInt8
  flags : UInt8
  ptsDtsFlags : UInt8
  lead : Nat
  extra : Text
  video : 0xE0 ≤ streamId ∧ streamId ≤ 0xEF
  timed : ptsDtsFlags.toNat / 64 = 2 ∨ (ptsDtsFlags.toNat / 64 = 3 ∧ 5 ≤ extra.length)
  nibble : lead < 16
  short : 5 + extra.length ≤ 255

def Pes.bytes (pes : Pes) (pts : Nat) : Text :=
  [0,0,1,pes.streamId,pes.packetLength.1,pes.packetLength.2,pes.flags,pes.ptsDtsFlags,UInt8.ofNat (5 + pes.extra.length)] ++
    ptsBytes pes.lead pts ++ pes.extra

/-- A packet of this PID with a payload, behind any adaptation field. -/
def IsPacket (p : Text) (pid : Nat) (pusi : Bool) (payload : Text) : Prop :=
  ∃ (b1 b2 b3 : UInt8) (field : Text), p = 0x47::b1::b2::b3::(field ++ payload) ∧ p.length = 188 ∧ payload ≠ [] ∧
    b1.toNat < 128 ∧ b1.toNat % 32 * 256 + b2.toNat = pid ∧ (pusi = true ↔ b1.toNat / 64 % 2 = 1) ∧
    ((b3.toNat / 16 % 4 = 1 ∧ field = []) ∨
      (b3.toNat / 16 % 4 = 3 ∧ ∃ content : Text, field = UInt8.ofNat content.length::content))

/-- A packet of another PID, or one with nothing but an adaptation field. -/
def OtherPacket (p : Text) (pid : Nat) : Prop :=
  ∃ (b0 b1 b2 b3 : UInt8) (rest : Text), p = b0::b1::b2::b3::rest ∧ p.length = 188 ∧
    (b1.toNat % 32 * 256 + b2.toNat ≠ pid ∨ b3.toNat / 16 % 2 = 0)

/-- Packets of which some carry these payloads of this PID, in their order. -/
inductive Interleaved (pid : Nat) : List Text → List (Bool × Text) → Prop
  | nil : Interleaved pid [] []
  | other {p : Text} {packets : List Text} {payloads : List (Bool × Text)} (other : OtherPacket p pid)
      (later : Interleaved pid packets payloads) : Interleaved pid (p::packets) payloads
  | own {p : Text} {packets : List Text} {pusi : Bool} {payload : Text} {payloads : List (Bool × Text)}
      (own : IsPacket p pid pusi payload) (later : Interleaved pid packets payloads) :
      Interleaved pid (p::packets) ((pusi,payload)::payloads)

def Sent (codec : Codec) (sps : Sps) (tc : ClockTimestamp) (pts pid : Nat) (packets : List Text) : Prop :=
  ∃ (unit : TimedUnit codec sps tc) (pes : Pes) (chunk : Text) (chunks : List Text) (next : Text),
    unit.bytes = chunk ++ chunks.flatten ∧
      Interleaved pid packets ((true,pes.bytes pts ++ chunk)::(chunks.map (Prod.mk false) ++ [(true,next)]))

def packetsOf (data : Text) : List Text :=
  (List.range (data.length / 188)).map fun k => (data.drop (188 * k)).take 188

theorem packetsOf_append {first : Text} (whole : 188 ∣ first.length) (second : Text) :
    packetsOf (first ++ second) = packetsOf first ++ packetsOf second := by
  obtain ⟨n,size⟩ := whole
  have count : (first ++ second).length / 188 = n + second.length / 188 := by
    rw [List.length_append,size]
    omega
  have own : first.length / 188 = n := by omega
  unfold packetsOf
  rw [count,own,List.range_add,List.map_append,List.map_map]
  congr 1
  · apply List.map_congr_left
    intro k among
    have below := List.mem_range.mp among
    rw [List.drop_append_of_le_length (by omega),List.take_append_of_le_length (by rw [List.length_drop]; omega)]
  · apply List.map_congr_left
    intro k _
    have past : 188 * (n + k) = first.length + 188 * k := by omega
    show ((first ++ second).drop (188 * (n + k))).take 188 = _
    rw [past,List.drop_length_add_append]

theorem packetsOf_flatten_calls {calls : List Text} (whole : ∀ data ∈ calls, 188 ∣ data.length) :
    calls.flatMap packetsOf = packetsOf calls.flatten := by
  induction calls with
  | nil => rfl
  | cons data calls ih =>
    rw [List.flatMap_cons,List.flatten_cons,packetsOf_append (whole data (by simp)),
      ih fun data' among => whole data' (by simp [among])]

theorem packetsOf_single {p : Text} (whole : p.length = 188) : packetsOf p = [p] := by
  unfold packetsOf
  rw [whole]
  show [(p.drop 0).take 188] = [p]
  rw [List.drop_zero,List.take_of_length_le (Nat.le_of_eq whole)]

theorem packetsOf_flatten {packets : List Text} (whole : ∀ p ∈ packets, p.length = 188) : packetsOf packets.flatten = packets := by
  rw [← packetsOf_flatten_calls fun p among => ⟨1,whole p among⟩]
  calc
    packets.flatMap packetsOf = packets.flatMap fun p => [p] := List.flatMap_congr fun p among => packetsOf_single (whole p among)
    _ = packets := List.flatMap_singleton' packets

end Transport

end SrtLiveServer.Timecode
