import SrtLiveServer.TimecodeRoundTrip
import SrtLiveServer.TimecodeSps

/-! Access units that need nothing from earlier ones: any of HEVC, and those of H.264
that bring the sequence parameter set their timecode is read with. -/
namespace SrtLiveServer.Timecode
open Bytes Checked Bits AnnexB

/-- The parameter set `sps`, and behind it an access unit in its widths. -/
structure KeyUnit (codec : Codec) (tc : ClockTimestamp) where
  sps : SeqParameterSet
  leading : List (Nat × Text)
  zeros : Nat
  header : UInt8
  rbsp : Text
  unit : TimedUnit codec sps.carried tc
  isNal : ∀ nal ∈ leading, IsNal nal.2
  others : ∀ nal ∈ leading, OtherNal codec nal.2
  isSps : header.toNat % 32 = 7
  isRbsp : sps.IsRbsp rbsp
  ended : ∃ last, rbsp.getLast? = some last ∧ last ≠ 0
  timed : sps.carried.picStructPresent = true
  inside : (byteStream leading ++ (startCode zeros ++ header::escape rbsp)).length +
    (byteStream unit.units ++ startCode unit.zeros ++ unit.header ++ escape unit.timed).length ≤ auPrefixMax

variable {codec : Codec} {tc : ClockTimestamp} {st : State}

def KeyUnit.nal (key : KeyUnit codec tc) : Text := key.header::escape key.rbsp

def KeyUnit.front (key : KeyUnit codec tc) : Text := byteStream key.leading ++ (startCode key.zeros ++ key.nal)

def KeyUnit.bytes (key : KeyUnit codec tc) : Text := key.front ++ key.unit.bytes

def State.withSps (st : State) (sps : Sps) : State := {st with spsValid := true,sps := sps}

theorem KeyUnit.nal_isNal (key : KeyUnit codec tc) : IsNal key.nal where
  clean := by
    refine (escape_clean key.rbsp).cons_of_ne ?_
    intro zero
    have isSps := key.isSps
    rw [zero] at isSps
    cases isSps
  ended := by
    obtain ⟨last,ends,nonzero⟩ := key.ended
    refine ⟨last,?_,nonzero⟩
    have escaped : (escape key.rbsp).getLast? = some last := by
      rw [escape,escapeFrom_getLast?]
      exact ends
    rw [KeyUnit.nal,List.getLast?_cons,escaped]
    rfl

theorem SeqParameterSet.IsRbsp.zeros {sps : SeqParameterSet} {rbsp : Text} (isRbsp : sps.IsRbsp rbsp) (count : Nat) :
    sps.IsRbsp (rbsp ++ List.replicate count 0) := by
  obtain ⟨zeros,encoded⟩ := isRbsp
  refine ⟨zeros + count * 8,?_⟩
  have bits : ∀ n, ofBytes (List.replicate n 0) = List.replicate (n * 8) false := by
    intro n
    induction n with
    | zero => rfl
    | succ n ih =>
      have eight : ofBytes (0::List.replicate n 0) = List.replicate 8 false ++ ofBytes (List.replicate n 0) := rfl
      rw [List.replicate_succ,eight,ih,List.replicate_append_replicate]
      congr 1
      omega
  have joined : ofBytes (rbsp ++ List.replicate count 0) = ofBytes rbsp ++ ofBytes (List.replicate count 0) := List.flatMap_append
  rw [joined,encoded,bits,List.append_assoc,List.cons_append,List.replicate_append_replicate]

theorem KeyUnit.scanNal_nal (key : KeyUnit codec tc) (notHevc : st.codec ≠ .hevc) (count : Nat)
    (short : (key.nal ++ List.replicate count (0 : UInt8)).length ≤ auPrefixMax) :
    scanNal (key.nal ++ List.replicate count 0) st = .ok (st.withSps key.sps.carried,none) := by
  obtain ⟨last,ends,_⟩ := key.nal_isNal.ended
  have unescaped : unescapeFrom 0 (escape key.rbsp ++ List.replicate count 0) = key.rbsp ++ List.replicate count 0 := by
    obtain ⟨after,same⟩ := unescapeFrom_escapeFrom key.rbsp 0 (List.replicate count 0)
    rw [unescapeFrom_zeros] at same
    exact same
  have cut : window (key.nal ++ List.replicate count 0) 1 ((key.nal ++ List.replicate count 0).length - 1) =
      .ok (escape key.rbsp ++ List.replicate count 0) :=
    window_rest [key.header] (escape key.rbsp ++ List.replicate count 0)
  have nonempty : 0 < (escape key.rbsp).length := by
    refine List.length_pos_iff.mpr fun empty => ?_
    obtain ⟨last,ends,_⟩ := key.ended
    rw [← escapeFrom_getLast? key.rbsp 0,← escape,empty] at ends
    cases ends
  have taken := (parseSpsH264_takes_or_keeps (key.rbsp ++ List.replicate count 0) st).1 key.sps (key.isRbsp.zeros count)
  have room : (escape key.rbsp ++ List.replicate count (0 : UInt8)).length ≤ auPrefixMax := by
    have size : (key.nal ++ List.replicate count (0 : UInt8)).length = (escape key.rbsp ++ List.replicate count (0 : UInt8)).length + 1 := rfl
    omega
  have header : readAt (key.nal ++ List.replicate count 0) 0 = .ok key.header := rfl
  have long : ¬ (key.nal ++ List.replicate count (0 : UInt8)).length < 2 := by
    have size : key.nal.length = (escape key.rbsp).length + 1 := rfl
    rw [List.length_append]
    omega
  unfold scanNal
  rw [if_neg notHevc,if_neg long,header,ok_bind]
  dsimp only
  rw [if_pos key.isSps,cut,ok_bind,rbspUnescape_eq room,ok_bind,unescaped,taken]
  rfl

theorem State.withSps_ready (kept : st.spsValid = true → st.sps.Sound) (key : KeyUnit codec tc) :
    (st.withSps key.sps.carried).Ready ∧ st.Walked (st.withSps key.sps.carried,none) := by
  obtain ⟨_,ran,walked⟩ := parseSpsH264_yields key.rbsp st
  have taken := (parseSpsH264_takes_or_keeps key.rbsp st).1 key.sps key.isRbsp
  rw [taken] at ran
  cases ran
  exact ⟨fun _ => ⟨rfl,key.timed,walked.sps kept rfl⟩,walked⟩

theorem KeyUnit.scans (key : KeyUnit st.codec tc) (notHevc : st.codec ≠ .hevc) (kept : st.spsValid = true → st.sps.Sound)
    (sane : isPlausible tc = true) (buffered : st.au = key.bytes.take auPrefixMax) :
    Yields (scanAuPrefix st) fun result => st.Walked result ∧ result.2 = some tc := by
  obtain ⟨ready,walked⟩ := State.withSps_ready kept key
  obtain ⟨seen,after,split,quiet⟩ := buffer_split key.unit (Nat.le_sub_of_add_le' key.inside)
  have fits : key.front.length ≤ auPrefixMax := Nat.le_trans (Nat.le_add_right _ _) key.inside
  have short : st.au.length ≤ auPrefixMax := by
    rw [buffered]
    exact List.length_take_le _ _
  have front : st.au = key.front ++ (byteStream key.unit.units ++ (startCode key.unit.zeros ++
      (key.unit.header ++ (escape key.unit.timed ++ seen) ++ after))) := by
    rw [buffered,KeyUnit.bytes,List.take_append,List.take_of_length_le fits,← split]
    rfl
  have whole : st.au = (key.front ++ byteStream key.unit.units) ++ (startCode key.unit.zeros ++
      (key.unit.header ++ (escape key.unit.timed ++ seen) ++ after)) := by rw [front,← List.append_assoc]
  have timed := Walks.timed ready sane key.unit.isSei key.unit.others key.unit.holds whole short quiet
  have passes : ∀ u ∈ key.unit.units, (st.withSps key.sps.carried).Passes u.2 := fun u among zeros fits =>
    scanNal_untimed ready (key.unit.isNal u among).nonempty (key.unit.untimed u among) zeros fits
  have units := Walks.units short key.unit.units key.front front key.unit.isNal passes timed
  obtain ⟨rest,next⟩ := byteStream_startCode key.unit.units key.unit.zeros
    (key.unit.header ++ (escape key.unit.timed ++ seen) ++ after)
  have before : st.au = byteStream key.leading ++ (startCode key.zeros ++ (key.nal ++
      (startCode (firstZeros key.unit.units key.unit.zeros) ++ rest))) := by
    rw [front,next,KeyUnit.front]
    simp only [List.append_assoc]
  have taken : Walks st.au ((byteStream key.leading).length + (key.zeros - 1)) st none fun result =>
      st.Walked result ∧ result.2 = some tc := by
    refine Walks.passed before key.nal_isNal (fun fits => key.scanNal_nal notHevc _ (Nat.le_trans fits short)) ?_
    intro bound enough
    exact (units bound enough).imp fun result ⟨further,found⟩ => ⟨walked.trans further,found⟩
  have leading : ∀ u ∈ key.leading, st.Passes u.2 := fun u among zeros _ =>
    scanNal_other (key.isNal u among).nonempty (key.others u among) _
  have all := Walks.units short key.leading [] before key.isNal leading taken
  obtain ⟨rest,first⟩ := byteStream_startCode key.leading key.zeros (key.nal ++
    (startCode (firstZeros key.unit.units key.unit.zeros) ++ rest))
  have start : st.au = [] ++ (startCode (firstZeros key.leading key.zeros) ++ rest) := before.trans first
  unfold scanAuPrefix
  rw [start] at all ⊢
  exact Walks.zeros [] _ rest all _ (by simp)

theorem KeyUnit.commits (key : KeyUnit st.codec tc) (sound : st.Sound) (notHevc : st.codec ≠ .hevc) (sane : isPlausible tc = true) :
    st.Commits tc key.bytes := by
  refine State.Commits.of_scan ?_ fun pts => ?_
  · have fits : key.front.length ≤ auPrefixMax := Nat.le_trans (Nat.le_add_right _ _) key.inside
    rw [KeyUnit.bytes,List.take_append,List.take_of_length_le fits,KeyUnit.front]
    simp only [List.length_append,startCode_length]
    omega
  · have scanned : Yields (scanAuPrefix (st.collecting pts (key.bytes.take auPrefixMax))) _ :=
      KeyUnit.scans key notHevc sound.sps sane rfl
    exact scanned

/-- An access unit of the codec that is read alike in every state of the scanner. -/
inductive SelfContained (tc : ClockTimestamp) : Codec → Text → Prop
  | hevc {sps : Sps} (unit : TimedUnit .hevc sps tc) : SelfContained tc .hevc unit.bytes
  | h264 (key : KeyUnit .h264 tc) : SelfContained tc .h264 key.bytes

/-- In HEVC the parameter set of H.264 does not matter. -/
def TimedUnit.withSps {sps : Sps} (unit : TimedUnit .hevc sps tc) (other : Sps) : TimedUnit .hevc other tc where
  units := unit.units
  zeros := unit.zeros
  header := unit.header
  messages := unit.messages
  payload := unit.payload
  rest := unit.rest
  after := unit.after
  isNal := unit.isNal
  untimed := unit.untimed
  isSei := unit.isSei
  others := unit.others
  holds := unit.holds
  ended := unit.ended
  inside := unit.inside

theorem SelfContained.commits {whole : Text} (unit : SelfContained tc codec whole) (sound : st.Sound) (same : st.codec = codec)
    (sane : isPlausible tc = true) : st.Commits tc whole := by
  cases unit with
  | @hevc sps unit =>
    have timed : ∀ {codec : Codec} (unit : TimedUnit codec st.sps tc), st.codec = codec → codec = .hevc → st.Commits tc unit.bytes := by
      rintro _ unit rfl hevc
      exact auFlush_timed (fun other => absurd hevc other) sane unit
    exact timed (unit.withSps st.sps) same rfl
  | h264 key =>
    have timed : ∀ {codec : Codec} (key : KeyUnit codec tc), st.codec = codec → codec ≠ .hevc → st.Commits tc key.bytes := by
      rintro _ key rfl notHevc
      exact key.commits sound notHevc sane
    exact timed key same Codec.noConfusion

end SrtLiveServer.Timecode
