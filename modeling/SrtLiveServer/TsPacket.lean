import SrtLiveServer.Common
import SrtLiveServer.TimecodeSafety

/-! `sls_parse_ts_info`: the PMT PID and the time stamps that are read off one packet of
a transport stream. -/
namespace SrtLiveServer.TsPacket
open Bytes Checked

def tsPackLen : Nat := 188

def invalidPid : Int := -1

def invalidDtsPts : Int := -1

structure TsInfo where
  esPid : Int
  dts : Int
  pts : Int
  pmtPid : Int
deriving DecidableEq

def slsInitTsInfo : TsInfo := ⟨invalidPid,invalidDtsPts,invalidDtsPts,invalidPid⟩

/-- The first term is computed in 32 bits and then widened to 64. -/
def ffParsePesPts (buf : Text) : Except Fault Int :=
  if buf.length < 5 then pure invalidDtsPts
  else do
    let b0 ← readAt buf 0
    let b1 ← readAt buf 1
    let b2 ← readAt buf 2
    let b3 ← readAt buf 3
    let b4 ← readAt buf 4
    let high : BitVec 64 := ((b0 &&& 0x0E).toBitVec.setWidth 32 <<< 29).signExtend 64
    let middle : BitVec 64 := (b1.toBitVec.setWidth 64 <<< 8 ||| (b2.toBitVec.setWidth 64 >>> 1)) <<< 15
    let low : BitVec 64 := (b3.toBitVec.setWidth 64 <<< 8 ||| b4.toBitVec.setWidth 64).sshiftRight 1
    pure (0 ||| high ||| middle ||| low).toInt

def slsPes2es (pes : Text) (ti : TsInfo) : Except Fault (Int × TsInfo) :=
  if pes.length < 3 then pure (slsError,ti)
  else do
    let b0 ← readAt pes 0
    let b1 ← readAt pes 1
    let b2 ← readAt pes 2
    if b0 ≠ 0 ∨ b1 ≠ 0 ∨ b2 ≠ 1 then pure (slsError,ti)
    else if pes.length ≤ 3 then pure (slsError,ti)
    else do
      let streamId ← readAt pes 3
      if streamId ≠ 0xE0 ∧ streamId ≠ 0xC0 then pure (slsError,ti)
      else if pes.length < 6 then pure (slsError,ti)
      else if pes.length < 9 then pure (slsError,ti)
      else do
        let flags ← readAt pes 7
        let ti := {ti with dts := invalidDtsPts,pts := invalidDtsPts}
        if flags &&& 0xC0 = 0x80 then
          if pes.length < 14 then pure (slsError,ti)
          else do
            let pts ← ffParsePesPts (pes.drop 9)
            pure (slsOk,{ti with dts := pts,pts := pts})
        else if flags &&& 0xC0 = 0xC0 then
          if pes.length < 19 then pure (slsError,ti)
          else do
            let pts ← ffParsePesPts (pes.drop 9)
            let dts ← ffParsePesPts (pes.drop 14)
            pure (slsOk,{ti with dts := dts,pts := pts})
        else pure (slsOk,ti)

/-- The loop over the programs; `n` is an offset behind the section header. -/
def patFrom (buffer : Text) (progEnd : Int) : Nat → Nat → TsInfo → Except Fault TsInfo
  | 0,_,_ => throw .endless
  | bound + 1,n,ti =>
    if n < progEnd then do
      let programNum ← Timecode.wordAt buffer (8 + n) 256
      let pid ← Timecode.wordAt buffer (10 + n) 32
      patFrom buffer progEnd bound (n + 4) (if programNum = 0 then ti else {ti with pmtPid := pid})
    else pure ti

def slsParsePat (buffer : Text) (ti : TsInfo) : Except Fault (Int × TsInfo) :=
  if buffer.length < 8 then pure (slsError,ti)
  else do
    let sectionLength ← Timecode.wordAt buffer 1 16
    let progEnd := if (buffer.length : Int) - 11 < (sectionLength : Int) - 12 then (buffer.length : Int) - 11
      else (sectionLength : Int) - 12
    let ti ← patFrom buffer progEnd (buffer.length + 1) 0 ti
    pure (slsOk,ti)

def slsParseTsInfo (packet : Text) (ti : TsInfo) : Except Fault (Int × TsInfo) :=
  if packet.length < tsPackLen then pure (slsError,ti)
  else do
    let p0 ← readAt packet 0
    if p0 ≠ 0x47 then pure (slsError,ti)
    else do
      let p1 ← readAt packet 1
      if p1 &&& 0x40 = 0 then pure (slsError,ti)
      else do
        let pid ← Timecode.wordAt packet 1 32
        if pid ≠ 0 ∧ ti.pmtPid = pid then pure (slsOk,ti)
        else if pid ≠ 0 ∧ ti.esPid ≠ invalidPid ∧ (pid : Int) ≠ ti.esPid then pure (slsError,ti)
        else do
          let p3 ← readAt packet 3
          let afc := p3.toNat / 16 % 4
          if afc = 0 then pure (slsError,ti)
          else do
            let p4 ← readAt packet 4
            let pos := if afc / 2 = 1 then 4 + (p4.toNat + 1) else 4
            if tsPackLen ≤ pos ∨ afc % 2 ≠ 1 then pure (slsError,ti)
            else if pid = 0 then do
              slsParsePat (← window packet (pos + 1) (tsPackLen - (pos + 1))) ti
            else do
              let (ret,ti) ← slsPes2es (← window packet pos (tsPackLen - pos)) ti
              pure (ret,if ti.dts ≠ invalidDtsPts then {ti with esPid := pid} else ti)

theorem ffParsePesPts_yields (buf : Text) : Yields (ffParsePesPts buf) fun _ => True := by
  unfold ffParsePesPts
  refine Yields.ite (fun _ => Yields.pure trivial) fun long => ?_
  refine (readAt_yields (by omega)).bind fun b0 _ => ?_
  refine (readAt_yields (by omega)).bind fun b1 _ => ?_
  refine (readAt_yields (by omega)).bind fun b2 _ => ?_
  refine (readAt_yields (by omega)).bind fun b3 _ => ?_
  exact (readAt_yields (by omega)).bind fun b4 _ => Yields.pure trivial

theorem slsPes2es_yields (pes : Text) (ti : TsInfo) : Yields (slsPes2es pes ti) fun _ => True := by
  unfold slsPes2es
  refine Yields.ite (fun _ => Yields.pure trivial) fun long => ?_
  refine (readAt_yields (by omega)).bind fun b0 _ => ?_
  refine (readAt_yields (by omega)).bind fun b1 _ => ?_
  refine (readAt_yields (by omega)).bind fun b2 _ => ?_
  refine Yields.ite (fun _ => Yields.pure trivial) fun _ => ?_
  refine Yields.ite (fun _ => Yields.pure trivial) fun more => ?_
  refine (readAt_yields (by omega)).bind fun streamId _ => ?_
  refine Yields.ite (fun _ => Yields.pure trivial) fun _ => ?_
  refine Yields.ite (fun _ => Yields.pure trivial) fun _ => ?_
  refine Yields.ite (fun _ => Yields.pure trivial) fun header => ?_
  refine (readAt_yields (by omega)).bind fun flags _ => ?_
  refine Yields.ite (fun _ => ?_) fun _ => Yields.ite (fun _ => ?_) fun _ => Yields.pure trivial
  · refine Yields.ite (fun _ => Yields.pure trivial) fun _ => ?_
    exact (ffParsePesPts_yields _).bind fun pts _ => Yields.pure trivial
  · refine Yields.ite (fun _ => Yields.pure trivial) fun _ => ?_
    refine (ffParsePesPts_yields _).bind fun pts _ => ?_
    exact (ffParsePesPts_yields _).bind fun dts _ => Yields.pure trivial

theorem patFrom_yields {buffer : Text} {progEnd : Int} (inside : progEnd ≤ (buffer.length : Int) - 11) (bound n : Nat)
    (short : n ≤ buffer.length) (enough : buffer.length < bound + n) (ti : TsInfo) : Yields (patFrom buffer progEnd bound n ti) fun _ => True := by
  induction bound generalizing n ti with
  | zero => omega
  | succ bound ih =>
    unfold patFrom
    refine Yields.ite (fun more => ?_) fun _ => Yields.pure trivial
    refine (Timecode.wordAt_yields 256 (by omega)).bind fun programNum _ => ?_
    refine (Timecode.wordAt_yields 32 (by omega)).bind fun pid _ => ?_
    exact ih (n + 4) (by omega) (by omega) _

theorem slsParsePat_yields (buffer : Text) (ti : TsInfo) : Yields (slsParsePat buffer ti) fun _ => True := by
  unfold slsParsePat
  refine Yields.ite (fun _ => Yields.pure trivial) fun long => ?_
  refine (Timecode.wordAt_yields 16 (by omega)).bind fun sectionLength _ => ?_
  refine (patFrom_yields ?_ (buffer.length + 1) 0 (Nat.zero_le _) (by omega) ti).bind fun ti _ => Yields.pure trivial
  split <;> omega

/-- No packet makes the parser read past an array. -/
theorem slsParseTsInfo_yields (packet : Text) (ti : TsInfo) : Yields (slsParseTsInfo packet ti) fun _ => True := by
  unfold slsParseTsInfo
  refine Yields.ite (fun _ => Yields.pure trivial) fun short => ?_
  unfold tsPackLen at short ⊢
  refine (readAt_yields (by omega)).bind fun p0 _ => ?_
  refine Yields.ite (fun _ => Yields.pure trivial) fun _ => ?_
  refine (readAt_yields (by omega)).bind fun p1 _ => ?_
  refine Yields.ite (fun _ => Yields.pure trivial) fun _ => ?_
  refine (Timecode.wordAt_yields 32 (by omega)).bind fun pid _ => ?_
  refine Yields.ite (fun _ => Yields.pure trivial) fun _ => ?_
  refine Yields.ite (fun _ => Yields.pure trivial) fun _ => ?_
  refine (readAt_yields (by omega)).bind fun p3 _ => ?_
  refine Yields.ite (fun _ => Yields.pure trivial) fun _ => ?_
  refine (readAt_yields (by omega)).bind fun p4 _ => ?_
  refine Yields.ite (fun _ => Yields.pure trivial) fun inside => ?_
  refine Yields.ite (fun _ => ?_) fun _ => ?_
  · exact (window_yields (by omega)).bind fun buffer _ => slsParsePat_yields buffer ti
  · refine (window_yields (by omega)).bind fun pes _ => ?_
    exact (slsPes2es_yields pes ti).bind fun result _ => Yields.pure trivial

end SrtLiveServer.TsPacket
