import Mathlib.Tactic.Ring
import SrtLiveServer.Bytes
import SrtLiveServer.Checked

/-! The timecode scanner of `SLSTimecode.cpp`, from TS packets down to the bit fields
of an SEI payload. Arrays are read through checked accesses and every loop carries a
bound, so that a read past an end or a loop without one shows as a fault. -/
namespace SrtLiveServer.Timecode
open Bytes Checked

inductive Codec where
  | none
  | h264
  | hevc
deriving DecidableEq

def invalidPid : Int := -1

def invalidPts : Int := -1

def auPrefixMax : Nat := 8192

structure ClockTimestamp where
  hours : Nat
  minutes : Nat
  seconds : Nat
  frames : Nat
  dropFrame : Bool
deriving DecidableEq

structure Sps where
  cpbDpbDelaysPresent : Bool
  cpbRemovalDelayLength : Nat
  dpbOutputDelayLength : Nat
  picStructPresent : Bool
  timeOffsetLength : Nat
deriving DecidableEq

/-- `au` holds the first `au_len` bytes of the buffer. -/
structure State where
  pmtPid : Int
  videoPid : Int
  codec : Codec
  spsValid : Bool
  sps : Sps
  au : Text
  auOpen : Bool
  auPts : Int
  valid : Bool
  timecode : ClockTimestamp
  pts : Int
  updates : Nat
deriving DecidableEq

def State.init : State where
  pmtPid := invalidPid
  videoPid := invalidPid
  codec := .none
  spsValid := false
  sps := ⟨false,0,0,false,24⟩
  au := []
  auOpen := false
  auPts := invalidPts
  valid := false
  timecode := ⟨0,0,0,0,false⟩
  pts := invalidPts
  updates := 0

section BitReader

structure BitReader where
  buf : Text
  pos : Nat
  err : Bool
deriving DecidableEq

abbrev Read (α : Type) : Type := StateT BitReader (Except Fault) α

def failed : Read Bool := do return (← get).err

def setErr : Read Unit := modify fun r => {r with err := true}

def brBits : Nat → Nat → Read Nat
  | 0,value => pure value
  | n + 1,value => do
    let r ← get
    let b ← readAt r.buf (r.pos / 8)
    set {r with pos := r.pos + 1}
    brBits n (value * 2 + b.toNat / 2 ^ (7 - r.pos % 8) % 2)

def brU (n : Nat) : Read Nat := do
  let r ← get
  if r.err = true then pure 0
  else if n = 0 ∨ 32 < n ∨ r.buf.length * 8 < r.pos + n then do
    setErr
    pure 0
  else brBits n 0

def skip {α : Type} (field : Read α) : Read Unit := do
  let _ ← field
  pure ()

def skipIf {α : Type} (condition : Prop) [Decidable condition] (field : Read α) : Read Unit :=
  if condition then skip field else pure ()

/-- `if (br_u(r, 1)) field`. -/
def skipFlagged {α : Type} (field : Read α) : Read Unit := do
  let flag ← brU 1
  skipIf (flag ≠ 0) field

/-- The zeros in front of an Exp-Golomb value; `none` if there are too many. -/
def leadingZeros : Nat → Nat → Read (Option Nat)
  | 0,_ => throw .endless
  | bound + 1,zeros => do
    if (← failed) = true then pure (some zeros)
    else if (← brU 1) = 1 then pure (some zeros)
    else if 31 < zeros + 1 then do
      setErr
      pure none
    else leadingZeros bound (zeros + 1)

def brUe : Read Nat := do
  match ← leadingZeros 32 0 with
  | none => pure 0
  | some zeros =>
    if (← failed) = true ∨ zeros = 0 then pure 0
    else do
      let value ← brU zeros
      pure (2 ^ zeros - 1 + value)

def brSe : Read Int := do
  let k ← brUe
  pure (if k % 2 = 1 then ((k + 1) / 2 : Nat) else -((k / 2 : Nat) : Int))

def brI (n : Nat) : Read Int := do
  let v ← brU n
  let err ← failed
  pure (if n < 32 ∧ err = false ∧ v / 2 ^ (n - 1) % 2 = 1 then (v : Int) - 2 ^ n else v)

end BitReader

def rbspUnescapeFrom (src : Text) (cap : Nat) : Nat → Nat → Text → Nat → Except Fault Text
  | 0,_,dst,_ => pure dst
  | left + 1,i,dst,zeros =>
    if dst.length < cap then do
      let c ← readAt src i
      if 2 ≤ zeros ∧ c = 3 then rbspUnescapeFrom src cap left (i + 1) dst 0
      else rbspUnescapeFrom src cap left (i + 1) (dst ++ [c]) (if c = 0 then zeros + 1 else 0)
    else pure dst

def rbspUnescape (src : Text) : Except Fault Text := rbspUnescapeFrom src auPrefixMax src.length 0 [] 0

/-- In the full form, or each further field behind a flag of its own. -/
def hmsFields (fullTimestamp : Bool) : Read (Nat × Nat × Nat) := do
  if fullTimestamp = true then do
    let seconds ← brU 6
    let minutes ← brU 6
    let hours ← brU 5
    pure (hours,minutes,seconds)
  else if (← brU 1) = 0 then pure (0,0,0)
  else do
    let seconds ← brU 6
    if (← brU 1) = 0 then pure (0,0,seconds)
    else do
      let minutes ← brU 6
      if (← brU 1) = 0 then pure (0,minutes,seconds)
      else do
        let hours ← brU 5
        pure (hours,minutes,seconds)

def readHms (fullTimestamp : Bool) : Read (Option (Nat × Nat × Nat)) := do
  let hms ← hmsFields fullTimestamp
  pure (if (← failed) = true then none else some hms)

def isPlausible (tc : ClockTimestamp) : Bool := tc.hours < 24 && tc.minutes < 60 && tc.seconds < 60

section SpsH264

def skipScalingListFrom : Nat → Int → Int → Read Unit
  | 0,_,_ => pure ()
  | left + 1,lastScale,nextScale => do
    if (← failed) = true then pure ()
    else if nextScale = 0 then skipScalingListFrom left lastScale nextScale
    else do
      let delta ← brSe
      let next := (lastScale + delta + 256).tmod 256
      skipScalingListFrom left (if next = 0 then lastScale else next) next

def skipScalingList (size : Nat) : Read Unit := skipScalingListFrom size 8 8

def skipScalingLists : Nat → Nat → Read Unit
  | 0,_ => pure ()
  | left + 1,i => do
    if (← failed) = true then pure ()
    else do
      skipFlagged (skipScalingList (if i < 6 then 16 else 64))
      skipScalingLists left (i + 1)

def skipTimes {α : Type} (field : Read α) : Nat → Read Unit
  | 0 => pure ()
  | left + 1 => do
    if (← failed) = true then pure ()
    else do
      skip field
      skipTimes field left

/-- The three lengths an HRD sets, in the order they are read. -/
structure HrdLengths where
  cpbRemoval : Nat
  dpbOutput : Nat
  timeOffset : Nat

def parseHrd (before : HrdLengths) : Read HrdLengths := do
  let cpbCnt ← brUe
  skip (brU 4)
  skip (brU 4)
  if 32 < cpbCnt + 1 then do
    setErr
    pure before
  else do
    skipTimes (do skip brUe; skip brUe; skip (brU 1)) (cpbCnt + 1)
    skip (brU 5)
    let cpbRemoval ← brU 5
    let dpbOutput ← brU 5
    let timeOffset ← brU 5
    pure ⟨cpbRemoval + 1,dpbOutput + 1,timeOffset⟩

def profileHasChromaExt (profileIdc : Nat) : Bool :=
  [100,110,122,244,44,83,86,118,128,138,139,134,135].contains profileIdc

def spsChroma (profileIdc : Nat) : Read Unit :=
  if profileHasChromaExt profileIdc = true then do
    let chromaFormatIdc ← brUe
    skipIf (chromaFormatIdc = 3) (brU 1)
    skip brUe
    skip brUe
    skip (brU 1)
    skipFlagged (skipScalingLists (if chromaFormatIdc = 3 then 12 else 8) 0)
  else pure ()

/-- False if the function returns here. -/
def spsPicOrderCnt : Read Bool := do
  skip brUe
  let pocType ← brUe
  if pocType = 0 then do
    skip brUe
    pure true
  else if pocType = 1 then do
    skip (brU 1)
    skip brSe
    skip brSe
    let cycle ← brUe
    if 255 < cycle then do
      setErr
      pure false
    else do
      skipTimes brSe cycle
      pure true
  else pure true

def spsFrame : Read Unit := do
  skip brUe
  skip (brU 1)
  skip brUe
  skip brUe
  let frameMbsOnly ← brU 1
  skipIf (frameMbsOnly = 0) (brU 1)
  skip (brU 1)
  skipFlagged (do skip brUe; skip brUe; skip brUe; skip brUe)

def vuiHead : Read Unit := do
  skipFlagged (do
    let aspectRatioIdc ← brU 8
    skipIf (aspectRatioIdc = 255) (do skip (brU 16); skip (brU 16)))
  skipFlagged (brU 1)
  skipFlagged (do
    skip (brU 3)
    skip (brU 1)
    skipFlagged (do skip (brU 8); skip (brU 8); skip (brU 8)))
  skipFlagged (do skip brUe; skip brUe)
  skipFlagged (do skip (brU 32); skip (brU 32); skip (brU 1))

def vuiHrd : Read Sps := do
  let nalHrd ← brU 1
  let nal ← (if nalHrd = 0 then pure ⟨0,0,24⟩ else parseHrd ⟨0,0,24⟩)
  let vclHrd ← brU 1
  let vcl ← (if vclHrd = 0 then pure nal else parseHrd nal)
  skipIf (nalHrd ≠ 0 ∨ vclHrd ≠ 0) (brU 1)
  let picStructPresent ← brU 1
  pure ⟨nalHrd ≠ 0 || vclHrd ≠ 0,vcl.cpbRemoval,vcl.dpbOutput,picStructPresent ≠ 0,vcl.timeOffset⟩

/-- `none` leaves the state's parameter set as it was. -/
def parseSps : Read (Option Sps) := do
  let profileIdc ← brU 8
  skip (brU 8)
  skip (brU 8)
  skip brUe
  spsChroma profileIdc
  if (← spsPicOrderCnt) = false then pure none
  else do
    spsFrame
    let vuiPresent ← brU 1
    if (← failed) = true then pure none
    else if vuiPresent = 0 then pure (some ⟨false,0,0,false,24⟩)
    else do
      vuiHead
      let sps ← vuiHrd
      pure (if (← failed) = true then none else some sps)

def parseSpsH264 (rbsp : Text) (st : State) : Except Fault State := do
  let (sps,_) ← parseSps.run ⟨rbsp,0,false⟩
  pure (match sps with
    | some sps => {st with spsValid := true,sps := sps}
    | none => st)

end SpsH264

section Sei

def numClockTs : List Nat := [1,1,1,2,2,3,3,2,3]

def picTimingFrom (timeOffsetLength : Nat) : Nat → Read (Option ClockTimestamp)
  | 0 => pure none
  | left + 1 => do
    if (← failed) = true then pure none
    else if (← brU 1) = 0 then picTimingFrom timeOffsetLength left
    else do
      skip (brU 2)
      skip (brU 1)
      skip (brU 5)
      let fullTimestamp ← brU 1
      skip (brU 1)
      let dropFrame ← brU 1
      let frames ← brU 8
      match ← readHms (fullTimestamp ≠ 0) with
      | none => pure none
      | some (hours,minutes,seconds) => do
        skipIf (0 < timeOffsetLength) (brI timeOffsetLength)
        let tc : ClockTimestamp := ⟨hours,minutes,seconds,frames,dropFrame ≠ 0⟩
        pure (if (← failed) = true ∨ isPlausible tc = false then none else some tc)

def parsePicTiming (sps : Sps) : Read (Option ClockTimestamp) := do
  skipIf (sps.cpbDpbDelaysPresent = true) (do
    skip (brU sps.cpbRemovalDelayLength)
    skip (brU sps.dpbOutputDelayLength))
  let picStruct ← brU 4
  if (← failed) = true ∨ 8 < picStruct then pure none
  else do
    let count ← readAt numClockTs picStruct
    picTimingFrom sps.timeOffsetLength count

def parsePicTimingH264 (payload : Text) (st : State) : Except Fault (Option ClockTimestamp) :=
  if st.spsValid = false ∨ st.sps.picStructPresent = false then pure none
  else do
    let (tc,_) ← (parsePicTiming st.sps).run ⟨payload,0,false⟩
    pure tc

def timeCodeFrom : Nat → Read (Option ClockTimestamp)
  | 0 => pure none
  | left + 1 => do
    if (← failed) = true then pure none
    else if (← brU 1) = 0 then timeCodeFrom left
    else do
      skip (brU 1)
      skip (brU 5)
      let fullTimestamp ← brU 1
      skip (brU 1)
      let dropFrame ← brU 1
      let frames ← brU 9
      match ← readHms (fullTimestamp ≠ 0) with
      | none => pure none
      | some (hours,minutes,seconds) => do
        let timeOffsetLength ← brU 5
        skipIf (0 < timeOffsetLength) (brI timeOffsetLength)
        let tc : ClockTimestamp := ⟨hours,minutes,seconds,frames,dropFrame ≠ 0⟩
        pure (if (← failed) = true ∨ isPlausible tc = false then none else some tc)

def parseTimeCodeHevc (payload : Text) : Except Fault (Option ClockTimestamp) := do
  let (tc,_) ← (do timeCodeFrom (← brU 2) : Read (Option ClockTimestamp)).run ⟨payload,0,false⟩
  pure tc

def want (codec : Codec) : Nat := if codec = .hevc then 136 else 1

/-- A byte-coded number: the `0xFF` bytes from `pos` on, each worth 255. -/
def ffRun (rbsp : Text) : Nat → Nat → Nat → Except Fault (Nat × Nat)
  | 0,_,_ => throw .endless
  | bound + 1,pos,total =>
    if pos < rbsp.length then do
      if (← readAt rbsp pos) = 0xFF then ffRun rbsp bound (pos + 1) (total + 255)
      else pure (pos,total)
    else pure (pos,total)

/-- The number behind its `0xFF` bytes, with the position after it; `none` at the end. -/
def byteCoded (rbsp : Text) (pos : Nat) : Except Fault (Option (Nat × Nat)) := do
  let (pos,total) ← ffRun rbsp (rbsp.length + 1) pos 0
  if rbsp.length ≤ pos then pure none
  else do
    let last ← readAt rbsp pos
    pure (some (pos + 1,total + last.toNat))

def parsePayload (st : State) (payload : Text) : Except Fault (Option ClockTimestamp) :=
  if st.codec = .hevc then parseTimeCodeHevc payload else parsePicTimingH264 payload st

def scanSeiFrom (st : State) (rbsp : Text) : Nat → Nat → Except Fault (Option ClockTimestamp)
  | 0,_ => throw .endless
  | bound + 1,pos =>
    if pos < rbsp.length then do
      let first ← readAt rbsp pos
      if first = 0x80 ∧ rbsp.length ≤ pos + 1 then pure none
      else
        match ← byteCoded rbsp pos with
        | none => pure none
        | some (pos,payloadType) =>
          match ← byteCoded rbsp pos with
          | none => pure none
          | some (pos,payloadSize) =>
            if (rbsp.length : Int) - pos < payloadSize then pure none
            else if payloadType = want st.codec then do
              let payload ← window rbsp pos payloadSize
              match ← parsePayload st payload with
              | some tc => pure (some tc)
              | none => scanSeiFrom st rbsp bound (pos + payloadSize)
            else scanSeiFrom st rbsp bound (pos + payloadSize)
    else pure none

def scanSeiMessages (rbsp : Text) (st : State) : Except Fault (Option ClockTimestamp) :=
  scanSeiFrom st rbsp (rbsp.length + 1) 0

end Sei

section AccessUnit

def scanNal (nal : Text) (st : State) : Except Fault (State × Option ClockTimestamp) :=
  if st.codec = .hevc then
    if nal.length < 3 then pure (st,none)
    else do
      let header ← readAt nal 0
      let nalType := header.toNat / 2 % 64
      if nalType ≠ 39 ∧ nalType ≠ 40 then pure (st,none)
      else do
        let rbsp ← rbspUnescape (← window nal 2 (nal.length - 2))
        pure (st,← scanSeiMessages rbsp st)
  else if nal.length < 2 then pure (st,none)
  else do
    let header ← readAt nal 0
    let nalType := header.toNat % 32
    if nalType = 7 then do
      let rbsp ← rbspUnescape (← window nal 1 (nal.length - 1))
      pure (← parseSpsH264 rbsp st,none)
    else if nalType ≠ 6 then pure (st,none)
    else do
      let rbsp ← rbspUnescape (← window nal 1 (nal.length - 1))
      pure (st,← scanSeiMessages rbsp st)

def isStartCode (b : Text) (i : Nat) : Except Fault (Option Nat) :=
  if b.length < i + 3 then pure none
  else do
    if (← readAt b i) ≠ 0 then pure none
    else if (← readAt b (i + 1)) ≠ 0 then pure none
    else do
      let third ← readAt b (i + 2)
      if third = 1 then pure (some (i + 3))
      else if i + 4 ≤ b.length ∧ third = 0 then do
        if (← readAt b (i + 3)) = 1 then pure (some (i + 4)) else pure none
      else pure none

/-- The end of the NAL under way at `stop`: the next start code, or the end. -/
def nalEnd (b : Text) : Nat → Nat → Except Fault Nat
  | 0,_ => throw .endless
  | bound + 1,stop =>
    if stop + 3 ≤ b.length then do
      match ← isStartCode b stop with
      | none => nalEnd b bound (stop + 1)
      | some _ => pure stop
    else pure b.length

def scanAuFrom (b : Text) : Nat → Nat → State → Option ClockTimestamp → Except Fault (State × Option ClockTimestamp)
  | 0,_,_,_ => throw .endless
  | bound + 1,i,st,found =>
    if i + 3 ≤ b.length then do
      match ← isStartCode b i with
      | none => scanAuFrom b bound (i + 1) st found
      | some nalStart => do
        let stop ← nalEnd b (b.length + 1) nalStart
        if nalStart < stop then do
          let (st,candidate) ← scanNal (← window b nalStart (stop - nalStart)) st
          -- the first timecode wins; later NALs are walked for their parameter sets
          scanAuFrom b bound stop st (found.or candidate)
        else scanAuFrom b bound stop st found
    else pure (st,found)

def scanAuPrefix (st : State) : Except Fault (State × Option ClockTimestamp) :=
  scanAuFrom st.au (st.au.length + 1) 0 st none

/-- Copies as much as there is room for; the copy itself is checked. -/
def auAppend (st : State) (data : Text) : Except Fault State :=
  let copied := data.take (auPrefixMax - st.au.length)
  if copied.length = 0 then pure st
  else if st.au.length + copied.length ≤ auPrefixMax then pure {st with au := st.au ++ copied}
  else throw .outOfBounds

def State.closeAu (st : State) : State := {st with auOpen := false,au := []}

/-- The state, and the number of timecodes decoded. -/
def auFlush (st : State) : Except Fault (State × Nat) :=
  if st.au.length = 0 then pure (st.closeAu,0)
  else do
    let (st,found) ← scanAuPrefix st
    match found with
    | none => pure (st.closeAu,0)
    | some tc =>
      pure (State.closeAu {st with valid := true,timecode := tc,pts := st.auPts,updates := (st.updates + 1) % 2 ^ 64},1)

end AccessUnit

section Packets

def readPts (b : Text) : Except Fault Int := do
  let b0 ← readAt b 0
  let b1 ← readAt b 1
  let b2 ← readAt b 2
  let b3 ← readAt b 3
  let b4 ← readAt b 4
  pure ((b0.toNat / 2 % 8 * 2 ^ 30 + b1.toNat * 2 ^ 22 + b2.toNat / 2 * 2 ^ 15 + b3.toNat * 2 ^ 7 + b4.toNat / 2 : Nat) : Int)

/-- `(s[q] & mask) << 8 | s[q + 1]`, the mask given by the values it leaves. -/
def wordAt (s : Text) (q values : Nat) : Except Fault Nat := do
  let high ← readAt s q
  let low ← readAt s (q + 1)
  pure (high.toNat % values * 256 + low.toNat)

/-- The section without its CRC, if it begins and ends inside this packet. -/
def psiSection (payload : Text) (tableId : UInt8) : Except Fault (Option Text) :=
  if payload.length < 1 then pure none
  else do
    let pointer ← readAt payload 0
    let offset := 1 + pointer.toNat
    if payload.length < offset + 8 then pure none
    else do
      let s ← window payload offset (payload.length - offset)
      if (← readAt s 0) ≠ tableId then pure none
      else do
        let sectionLength ← wordAt s 1 16
        if sectionLength < 9 ∨ s.length < sectionLength + 3 then pure none
        else do
          let sect ← window s 0 (3 + sectionLength - 4)
          pure (some sect)

def State.newProgram (st : State) (pmtPid : Int) : State :=
  {st with pmtPid := pmtPid,videoPid := invalidPid,codec := .none,spsValid := false,auOpen := false,au := []}

def patFrom (s : Text) (st : State) : Nat → Nat → Except Fault State
  | 0,_ => throw .endless
  | bound + 1,q =>
    if q + 4 ≤ s.length then do
      let programNumber ← wordAt s q 256
      if programNumber = 0 then patFrom s st bound (q + 4)
      else do
        let pmtPid ← wordAt s (q + 2) 32
        pure (if (pmtPid : Int) ≠ st.pmtPid then st.newProgram pmtPid else st)
    else pure st

def parsePat (payload : Text) (st : State) : Except Fault State := do
  match ← psiSection payload 0x00 with
  | none => pure st
  | some s => patFrom s st (s.length + 1) 8

def State.newVideo (st : State) (videoPid : Int) (codec : Codec) : State :=
  {st with videoPid := videoPid,codec := codec,spsValid := false,auOpen := false,au := []}

def codecOf (streamType : UInt8) : Codec := if streamType = 0x1B then .h264 else if streamType = 0x24 then .hevc else .none

def pmtFrom (s : Text) (st : State) : Nat → Nat → Except Fault State
  | 0,_ => throw .endless
  | bound + 1,q =>
    if q + 5 ≤ s.length then do
      let streamType ← readAt s q
      let elementaryPid ← wordAt s (q + 1) 32
      let esInfoLength ← wordAt s (q + 3) 16
      let codec := codecOf streamType
      if codec ≠ .none then
        pure (if (elementaryPid : Int) ≠ st.videoPid ∨ codec ≠ st.codec then st.newVideo elementaryPid codec else st)
      else pmtFrom s st bound (q + (5 + esInfoLength))
    else pure st

def parsePmt (payload : Text) (st : State) : Except Fault State := do
  match ← psiSection payload 0x02 with
  | none => pure st
  | some s =>
    if s.length < 12 then pure st
    else do
      let programInfoLength ← wordAt s 10 16
      pmtFrom s st (s.length + 1) (12 + programInfoLength)

def pesHeader (payload : Text) (st : State) : Except Fault State :=
  if payload.length < 9 then pure st
  else do
    let b0 ← readAt payload 0
    let b1 ← readAt payload 1
    let b2 ← readAt payload 2
    if b0 ≠ 0 ∨ b1 ≠ 0 ∨ b2 ≠ 1 then pure st
    else do
      let streamId ← readAt payload 3
      if streamId < 0xE0 ∨ 0xEF < streamId then pure st
      else do
        let flags ← readAt payload 7
        let headerLen ← readAt payload 8
        let ptsDtsFlags := flags.toNat / 64
        let esOffset := 9 + headerLen.toNat
        if payload.length < esOffset then pure st
        else do
          let pts ← (if (ptsDtsFlags = 2 ∧ 5 ≤ headerLen.toNat) ∨ (ptsDtsFlags = 3 ∧ 10 ≤ headerLen.toNat) then do
              readPts (← window payload 9 (payload.length - 9))
            else pure st.auPts)
          auAppend {st with auPts := pts,auOpen := true} (← window payload esOffset (payload.length - esOffset))

def flushFull (st : State) : Except Fault (State × Nat) :=
  if st.auOpen = true ∧ auPrefixMax ≤ st.au.length then auFlush st else pure (st,0)

def feedVideoPacket (payload : Text) (pusi : Bool) (st : State) : Except Fault (State × Nat) :=
  if pusi = true then do
    let (flushed,first) ← auFlush st
    let opened ← pesHeader payload {flushed with auPts := invalidPts}
    let (st,second) ← flushFull opened
    pure (st,first + second)
  else if st.auOpen = true then do
    flushFull (← auAppend st payload)
  else flushFull st

/-- What becomes of a payload, by its PID. -/
def route (pid : Nat) (pusi : Bool) (payload : Text) (st : State) : Except Fault (State × Nat) :=
  if pid = 0 then do
    if pusi = true then pure (← parsePat payload st,0) else pure (st,0)
  else if (pid : Int) = st.pmtPid then do
    if pusi = true then pure (← parsePmt payload st,0) else pure (st,0)
  else if (pid : Int) = st.videoPid ∧ st.codec ≠ .none then feedVideoPacket payload pusi st
  else pure (st,0)

def scanPacket (p : Text) (st : State) : Except Fault (State × Nat) := do
  let p0 ← readAt p 0
  if p0 ≠ 0x47 then pure (st,0)
  else do
    let p1 ← readAt p 1
    if p1.toNat / 128 = 1 then pure (st,0)
    else do
      let pid ← wordAt p 1 32
      if pid = 0x1FFF then pure (st,0)
      else do
        let p3 ← readAt p 3
        let afc := p3.toNat / 16 % 4
        if afc % 2 = 0 then pure (st,0)
        else do
          let pos ← (if afc / 2 = 1 then do pure (4 + (1 + (← readAt p 4).toNat)) else pure 4)
          if 188 ≤ pos then pure (st,0)
          else do
            let payload ← window p pos (188 - pos)
            route pid (p1.toNat / 64 % 2 = 1) payload st

/-- The value of an `int` after its arithmetic has wrapped. -/
def int32 (x : Int) : Int := x.bmod (2 ^ 32)

theorem int32_small {x : Int} (low : -2 ^ 31 ≤ x) (high : x < 2 ^ 31) : int32 x = x := by
  unfold int32
  rw [Int.bmod_eq_of_le]
  · omega
  · omega

def scanFrom (data : Text) : Nat → Int → State → Nat → Except Fault (State × Nat)
  | 0,_,_,_ => throw .endless
  | bound + 1,i,st,decoded =>
    if int32 (i + 188) ≤ data.length then do
      if i < 0 then throw .outOfBounds
      else do
        let p ← window data i.toNat 188
        let (st,count) ← scanPacket p st
        scanFrom data bound (int32 (i + 188)) st (decoded + count)
    else pure (st,decoded)

def tsScanTimecode (data : Text) (st : State) : Except Fault (State × Nat) := scanFrom data (data.length + 1) 0 st 0

end Packets

end SrtLiveServer.Timecode
