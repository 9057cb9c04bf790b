import SrtLiveServer.TimecodeReader

/-! The timecode scanner on arbitrary bytes: what each parser yields, and the state
that every call leaves behind. -/
namespace SrtLiveServer.Timecode
open Bytes Checked

section Reader

instance (n : Nat) : Ends BitReader.Failed (brU n) := (brU_meets n).ends

instance : Ends BitReader.Failed failed := ⟨fun r => ⟨(r.err,r),rfl,id⟩⟩

instance : Ends BitReader.Failed setErr := ⟨fun r => ⟨((),{r with err := true}),rfl,fun _ => rfl⟩⟩

variable {α : Type}

instance (field : Read α) [Ends BitReader.Failed field] : Ends BitReader.Failed (skip field) := by
  unfold skip
  infer_instance

instance (condition : Prop) [Decidable condition] (field : Read α) [Ends BitReader.Failed field] :
    Ends BitReader.Failed (skipIf condition field) := by
  unfold skipIf
  infer_instance

instance (field : Read α) [Ends BitReader.Failed field] : Ends BitReader.Failed (skipFlagged field) := by
  unfold skipFlagged
  infer_instance

theorem leadingZeros_ends (bound zeros : Nat) (few : zeros ≤ 31) (enough : 32 ≤ bound + zeros) :
    Ends BitReader.Failed (leadingZeros bound zeros) := by
  induction bound generalizing zeros with
  | zero => omega
  | succ bound ih =>
    rw [leadingZeros]
    by_cases many : 31 < zeros + 1
    · simp only [if_pos many]
      infer_instance
    · simp only [if_neg many]
      have later := ih (zeros + 1) (by omega) (by omega)
      infer_instance

instance : Ends BitReader.Failed brUe := by
  unfold brUe
  have zeros := leadingZeros_ends 32 0 (by decide) (by decide)
  have rest : ∀ found : Option Nat, Ends BitReader.Failed (match found with
      | none => pure 0
      | some zeros => do
        if (← failed) = true ∨ zeros = 0 then pure 0
        else do
          let value ← brU zeros
          pure (2 ^ zeros - 1 + value) : Read Nat) := by
    intro found
    cases found with
    | none => infer_instance
    | some zeros => infer_instance
  infer_instance

instance : Ends BitReader.Failed brSe := by
  unfold brSe
  infer_instance

instance (n : Nat) : Ends BitReader.Failed (brI n) := by
  unfold brI
  infer_instance

instance (fullTimestamp : Bool) : Ends BitReader.Failed (hmsFields fullTimestamp) := by
  unfold hmsFields
  infer_instance

instance (fullTimestamp : Bool) : Ends BitReader.Failed (readHms fullTimestamp) := by
  unfold readHms
  infer_instance

end Reader

section Sps

set_option synthInstance.maxSize 10000

instance (left : Nat) (lastScale nextScale : Int) : Ends BitReader.Failed (skipScalingListFrom left lastScale nextScale) := by
  induction left generalizing lastScale nextScale with
  | zero =>
    rw [skipScalingListFrom]
    infer_instance
  | succ left ih =>
    rw [skipScalingListFrom]
    infer_instance

instance (size : Nat) : Ends BitReader.Failed (skipScalingList size) := by
  unfold skipScalingList
  infer_instance

instance (left i : Nat) : Ends BitReader.Failed (skipScalingLists left i) := by
  induction left generalizing i with
  | zero =>
    rw [skipScalingLists]
    infer_instance
  | succ left ih =>
    rw [skipScalingLists]
    infer_instance

instance {α : Type} (field : Read α) [Ends BitReader.Failed field] (left : Nat) :
    Ends BitReader.Failed (skipTimes field left) := by
  induction left with
  | zero =>
    rw [skipTimes]
    infer_instance
  | succ left ih =>
    rw [skipTimes]
    infer_instance

instance (profileIdc : Nat) : Ends BitReader.Failed (spsChroma profileIdc) := by
  unfold spsChroma
  infer_instance

instance : Ends BitReader.Failed spsPicOrderCnt := by
  unfold spsPicOrderCnt
  infer_instance

instance : Ends BitReader.Failed spsFrame := by
  unfold spsFrame
  infer_instance

instance : Ends BitReader.Failed vuiHead := by
  unfold vuiHead
  infer_instance

structure Sps.Sound (sps : Sps) : Prop where
  cpbRemoval : sps.cpbRemovalDelayLength ≤ 32
  dpbOutput : sps.dpbOutputDelayLength ≤ 32
  present : sps.cpbDpbDelaysPresent = true → 1 ≤ sps.cpbRemovalDelayLength ∧ 1 ≤ sps.dpbOutputDelayLength
  timeOffset : sps.timeOffsetLength ≤ 31

def HrdLengths.Read (lengths : HrdLengths) : Prop :=
  (1 ≤ lengths.cpbRemoval ∧ lengths.cpbRemoval ≤ 32) ∧ (1 ≤ lengths.dpbOutput ∧ lengths.dpbOutput ≤ 32) ∧
    lengths.timeOffset ≤ 31

theorem parseHrd_meets (before : HrdLengths) : Meets BitReader.Failed (parseHrd before) HrdLengths.Read := by
  unfold parseHrd
  refine Meets.after fun cpbCnt => ?_
  refine Meets.after fun _ => Meets.after fun _ => ?_
  refine Meets.ite (fun _ => ?_) fun _ => ?_
  · intro r
    exact ⟨(before,{r with err := true}),rfl,fun _ => rfl,.inl rfl⟩
  · refine Meets.after fun _ => Meets.after fun _ => ?_
    refine Meets.bind (brU_meets 5) fun cpbRemoval small => ?_
    refine Meets.bind (brU_meets 5) fun dpbOutput small' => ?_
    refine Meets.bind (brU_meets 5) fun timeOffset small'' => ?_
    refine Meets.pure ⟨⟨?_,?_⟩,⟨?_,?_⟩,?_⟩
    · exact Nat.succ_pos cpbRemoval
    · exact small
    · exact Nat.succ_pos dpbOutput
    · exact small'
    · exact Nat.le_of_lt_succ small''

instance (before : HrdLengths) : Ends BitReader.Failed (parseHrd before) := (parseHrd_meets before).ends

instance : Ends BitReader.Failed vuiHrd := by
  unfold vuiHrd
  infer_instance

/-- The lengths after the HRDs that are there: with a delay they have been read. -/
def HrdLengths.Fits (present : Prop) (lengths : HrdLengths) : Prop :=
  lengths.cpbRemoval ≤ 32 ∧ lengths.dpbOutput ≤ 32 ∧ lengths.timeOffset ≤ 31 ∧
    (present → 1 ≤ lengths.cpbRemoval ∧ 1 ≤ lengths.dpbOutput)

theorem HrdLengths.Read.fits {lengths : HrdLengths} (read : lengths.Read) (present : Prop) : lengths.Fits present :=
  ⟨read.1.2,read.2.1.2,read.2.2,fun _ => ⟨read.1.1,read.2.1.1⟩⟩

theorem vuiHrd_meets : Meets BitReader.Failed vuiHrd Sps.Sound := by
  unfold vuiHrd
  refine Meets.after fun nalHrd => ?_
  have nalFits : Meets BitReader.Failed (if nalHrd = 0 then pure ⟨0,0,24⟩ else parseHrd ⟨0,0,24⟩)
      (HrdLengths.Fits (nalHrd ≠ 0)) := by
    refine Meets.ite (fun absent => Meets.pure ?_) fun _ => (parseHrd_meets _).imp fun _ read => read.fits _
    exact ⟨by decide,by decide,by decide,fun present => absurd absent present⟩
  refine Meets.bind nalFits fun nal nalFits => ?_
  refine Meets.after fun vclHrd => ?_
  have vclFits : Meets BitReader.Failed (if vclHrd = 0 then pure nal else parseHrd nal)
      (HrdLengths.Fits (nalHrd ≠ 0 ∨ vclHrd ≠ 0)) := by
    refine Meets.ite (fun absent => Meets.pure ?_) fun _ => (parseHrd_meets _).imp fun _ read => read.fits _
    exact ⟨nalFits.1,nalFits.2.1,nalFits.2.2.1,fun present => nalFits.2.2.2 (present.resolve_right fun other => other absent)⟩
  refine Meets.bind vclFits fun vcl vclFits => ?_
  refine Meets.after fun _ => Meets.after fun picStructPresent => ?_
  refine Meets.pure ⟨vclFits.1,vclFits.2.1,fun present => vclFits.2.2.2 ?_,vclFits.2.2.1⟩
  simpa using present

theorem parseSps_always : Always parseSps fun found => ∀ sps, found = some sps → sps.Sound := by
  unfold parseSps
  refine Always.after BitReader.Failed fun profileIdc => ?_
  refine Always.after BitReader.Failed fun _ => Always.after BitReader.Failed fun _ => ?_
  refine Always.after BitReader.Failed fun _ => Always.after BitReader.Failed fun _ => ?_
  refine Always.after BitReader.Failed fun kept => Always.ite (fun _ => Always.pure ?_) fun _ => ?_
  · exact fun sps found => by cases found
  · refine Always.after BitReader.Failed fun _ => Always.after BitReader.Failed fun vuiPresent => ?_
    refine Always.after BitReader.Failed fun err => Always.ite (fun _ => Always.pure ?_) fun _ => ?_
    · exact fun sps found => by cases found
    · refine Always.ite (fun _ => Always.pure ?_) fun _ => ?_
      · intro sps found
        cases found
        exact ⟨by decide,by decide,fun present => (by cases present),by decide⟩
      · refine Always.after BitReader.Failed fun _ => ?_
        -- the last guard drops what was read after a failure
        intro r
        obtain ⟨⟨sps,r'⟩,ran,_,met⟩ := vuiHrd_meets r
        refine ⟨(if r'.err = true then none else some sps,r'),?_,?_⟩
        · rw [StateT.run_bind,ran]
          rfl
        · intro sps' found
          dsimp only at found
          split at found
          · cases found
          · rename_i fine
            cases found
            exact met.resolve_left fine

end Sps

section Payloads

def Plausible (found : Option ClockTimestamp) : Prop := ∀ tc, found = some tc → isPlausible tc = true

theorem Plausible.none : Plausible none := fun _ found => by cases found

theorem isPlausible_guard (failed : Prop) [Decidable failed] (tc : ClockTimestamp) :
    Plausible (if failed ∨ isPlausible tc = false then Option.none else some tc) := by
  intro tc' found
  split at found
  · cases found
  · rename_i kept
    cases found
    simpa using fun unlikely => kept (.inr unlikely)

theorem picTimingFrom_always (timeOffsetLength left : Nat) : Always (picTimingFrom timeOffsetLength left) Plausible := by
  induction left with
  | zero => exact Always.pure Plausible.none
  | succ left ih =>
    rw [picTimingFrom]
    refine Always.after BitReader.Failed fun err => Always.ite (fun _ => Always.pure Plausible.none) fun _ => ?_
    refine Always.after BitReader.Failed fun flag => Always.ite (fun _ => ih) fun _ => ?_
    refine Always.after BitReader.Failed fun _ => Always.after BitReader.Failed fun _ => ?_
    refine Always.after BitReader.Failed fun _ => Always.after BitReader.Failed fun fullTimestamp => ?_
    refine Always.after BitReader.Failed fun _ => Always.after BitReader.Failed fun dropFrame => ?_
    refine Always.after BitReader.Failed fun frames => Always.after BitReader.Failed fun hms => ?_
    cases hms with
    | none => exact Always.pure Plausible.none
    | some hms =>
      refine Always.after BitReader.Failed fun _ => Always.after BitReader.Failed fun err => ?_
      exact Always.pure (isPlausible_guard _ _)

theorem timeCodeFrom_always (left : Nat) : Always (timeCodeFrom left) Plausible := by
  induction left with
  | zero => exact Always.pure Plausible.none
  | succ left ih =>
    rw [timeCodeFrom]
    refine Always.after BitReader.Failed fun err => Always.ite (fun _ => Always.pure Plausible.none) fun _ => ?_
    refine Always.after BitReader.Failed fun flag => Always.ite (fun _ => ih) fun _ => ?_
    refine Always.after BitReader.Failed fun _ => Always.after BitReader.Failed fun _ => ?_
    refine Always.after BitReader.Failed fun fullTimestamp => Always.after BitReader.Failed fun _ => ?_
    refine Always.after BitReader.Failed fun dropFrame => Always.after BitReader.Failed fun frames => ?_
    refine Always.after BitReader.Failed fun hms => ?_
    cases hms with
    | none => exact Always.pure Plausible.none
    | some hms =>
      refine Always.after BitReader.Failed fun timeOffsetLength => Always.after BitReader.Failed fun _ => ?_
      exact Always.after BitReader.Failed fun err => Always.pure (isPlausible_guard _ _)

theorem parsePicTiming_always (sps : Sps) : Always (parsePicTiming sps) Plausible := by
  unfold parsePicTiming
  refine Always.after BitReader.Failed fun _ => Always.after BitReader.Failed fun picStruct => ?_
  refine Always.after BitReader.Failed fun err => Always.ite (fun _ => Always.pure Plausible.none) fun known => ?_
  have inside : picStruct < numClockTs.length := by
    show picStruct < 9
    omega
  intro r
  obtain ⟨result,ran,met⟩ := picTimingFrom_always sps.timeOffsetLength (numClockTs[picStruct]) r
  refine ⟨result,?_,met⟩
  rw [← ran,StateT.run_bind]
  simp [readAt_eq inside]
  rfl

theorem parsePayload_yields (st : State) (payload : Text) : Yields (parsePayload st payload) Plausible := by
  unfold parsePayload
  refine Yields.ite (fun _ => ?_) fun _ => ?_
  · have always : Always (do timeCodeFrom (← brU 2) : Read (Option ClockTimestamp)) Plausible :=
      Always.after BitReader.Failed fun count => timeCodeFrom_always count
    unfold parseTimeCodeHevc
    exact (always _).bind fun result met => Yields.pure met
  · unfold parsePicTimingH264
    refine Yields.ite (fun _ => Yields.pure Plausible.none) fun _ => ?_
    exact (parsePicTiming_always st.sps _).bind fun result met => Yields.pure met

theorem ffRun_yields (rbsp : Text) (bound pos total : Nat) (inside : pos ≤ rbsp.length) (enough : rbsp.length < bound + pos) :
    Yields (ffRun rbsp bound pos total) fun result => pos ≤ result.1 ∧ result.1 ≤ rbsp.length := by
  induction bound generalizing pos total with
  | zero => omega
  | succ bound ih =>
    rw [ffRun]
    refine Yields.ite (fun more => ?_) fun _ => Yields.pure ⟨Nat.le_refl pos,inside⟩
    refine (readAt_yields more).bind fun b _ => ?_
    refine Yields.ite (fun _ => ?_) fun _ => Yields.pure ⟨Nat.le_refl pos,inside⟩
    exact (ih (pos + 1) (total + 255) more (by omega)).imp fun _ ⟨low,high⟩ => ⟨by omega,high⟩

theorem byteCoded_yields (rbsp : Text) (pos : Nat) (inside : pos ≤ rbsp.length) :
    Yields (byteCoded rbsp pos) fun found => ∀ next value, found = some (next,value) → pos < next ∧ next ≤ rbsp.length := by
  unfold byteCoded
  refine (ffRun_yields rbsp (rbsp.length + 1) pos 0 inside (by omega)).bind fun ⟨stop,total⟩ ⟨low,high⟩ => ?_
  refine Yields.ite (fun _ => Yields.pure fun _ _ found => by cases found) fun more => ?_
  refine (readAt_yields (Nat.lt_of_not_le more)).bind fun last _ => Yields.pure ?_
  intro next value found
  cases found
  exact ⟨Nat.lt_succ_of_le low,Nat.lt_of_not_le more⟩

theorem scanSeiFrom_yields (st : State) (rbsp : Text) (bound pos : Nat) (inside : pos ≤ rbsp.length)
    (enough : rbsp.length < bound + pos) : Yields (scanSeiFrom st rbsp bound pos) Plausible := by
  induction bound generalizing pos with
  | zero => omega
  | succ bound ih =>
    rw [scanSeiFrom]
    refine Yields.ite (fun more => ?_) fun _ => Yields.pure Plausible.none
    refine (readAt_yields more).bind fun first _ => ?_
    refine Yields.ite (fun _ => Yields.pure Plausible.none) fun _ => ?_
    refine (byteCoded_yields rbsp pos inside).bind fun typed isTyped => ?_
    cases typed with
    | none => exact Yields.pure Plausible.none
    | some typed =>
      obtain ⟨afterType,payloadType⟩ := typed
      have atType := isTyped afterType payloadType rfl
      refine (byteCoded_yields rbsp afterType atType.2).bind fun sized isSized => ?_
      cases sized with
      | none => exact Yields.pure Plausible.none
      | some sized =>
        obtain ⟨start,payloadSize⟩ := sized
        have atSize := isSized start payloadSize rfl
        refine Yields.ite (fun _ => Yields.pure Plausible.none) fun fits => ?_
        have next := ih (start + payloadSize) (by omega) (by omega)
        refine Yields.ite (fun _ => ?_) fun _ => next
        refine (window_yields (by omega)).bind fun payload _ => ?_
        refine (parsePayload_yields st payload).bind fun found met => ?_
        cases found with
        | none => exact next
        | some tc => exact Yields.pure met

theorem scanSeiMessages_yields (rbsp : Text) (st : State) : Yields (scanSeiMessages rbsp st) Plausible :=
  scanSeiFrom_yields st rbsp (rbsp.length + 1) 0 (Nat.zero_le _) (by omega)

theorem rbspUnescapeFrom_yields (src : Text) (cap left i : Nat) (dst : Text) (zeros : Nat) (inside : i + left ≤ src.length) :
    Yields (rbspUnescapeFrom src cap left i dst zeros) fun _ => True := by
  induction left generalizing i dst zeros with
  | zero => exact Yields.pure trivial
  | succ left ih =>
    rw [rbspUnescapeFrom]
    refine Yields.ite (fun _ => ?_) fun _ => Yields.pure trivial
    refine (readAt_yields (by omega)).bind fun c _ => ?_
    exact Yields.ite (fun _ => ih _ _ _ (by omega)) fun _ => ih _ _ _ (by omega)

theorem rbspUnescape_yields (src : Text) : Yields (rbspUnescape src) fun _ => True :=
  rbspUnescapeFrom_yields src auPrefixMax src.length 0 [] 0 (by omega)

end Payloads

section AccessUnit

/-- What a walk over NALs leaves of `st`: only the parameter set can be new. -/
structure State.Walked (st : State) (result : State × Option ClockTimestamp) : Prop where
  others : result.1 = {st with spsValid := result.1.spsValid,sps := result.1.sps}
  sps : (st.spsValid = true → st.sps.Sound) → result.1.spsValid = true → result.1.sps.Sound
  sane : Plausible result.2

theorem State.Walked.same {st : State} {found : Option ClockTimestamp} (sane : Plausible found) :
    st.Walked (st,found) := ⟨rfl,id,sane⟩

theorem State.Walked.trans {st : State} {middle result : State × Option ClockTimestamp} (walked : st.Walked middle)
    (further : middle.1.Walked result) : st.Walked result := by
  refine ⟨?_,fun sound => further.sps (walked.sps sound),further.sane⟩
  rw [further.others,walked.others]

theorem parseSpsH264_yields (rbsp : Text) (st : State) : Yields (parseSpsH264 rbsp st) fun st' => st.Walked (st',none) := by
  unfold parseSpsH264
  refine (parseSps_always _).bind fun ⟨found,r⟩ sound => Yields.pure ?_
  cases found with
  | none => exact State.Walked.same Plausible.none
  | some sps => exact ⟨rfl,fun _ _ => sound sps rfl,Plausible.none⟩

theorem scanSei_yields (nal : Text) (skipped : Nat) (long : skipped ≤ nal.length) (st : State) :
    Yields (do
      let rbsp ← rbspUnescape (← window nal skipped (nal.length - skipped))
      pure (st,← scanSeiMessages rbsp st)) st.Walked := by
  refine (window_yields (by omega)).bind fun escaped _ => ?_
  refine (rbspUnescape_yields escaped).bind fun rbsp _ => ?_
  exact (scanSeiMessages_yields rbsp st).bind fun found sane => Yields.pure (State.Walked.same sane)

theorem scanNal_yields (nal : Text) (st : State) : Yields (scanNal nal st) st.Walked := by
  unfold scanNal
  refine Yields.ite (fun _ => ?_) fun _ => ?_
  · refine Yields.ite (fun _ => Yields.pure (State.Walked.same Plausible.none)) fun long => ?_
    refine (readAt_yields (by omega)).bind fun header _ => ?_
    refine Yields.ite (fun _ => Yields.pure (State.Walked.same Plausible.none)) fun _ => ?_
    exact scanSei_yields nal 2 (by omega) st
  · refine Yields.ite (fun _ => Yields.pure (State.Walked.same Plausible.none)) fun long => ?_
    refine (readAt_yields (by omega)).bind fun header _ => ?_
    refine Yields.ite (fun _ => ?_) fun _ => ?_
    · refine (window_yields (by omega)).bind fun escaped _ => ?_
      refine (rbspUnescape_yields escaped).bind fun rbsp _ => ?_
      exact (parseSpsH264_yields rbsp st).bind fun st' walked => Yields.pure walked
    · refine Yields.ite (fun _ => Yields.pure (State.Walked.same Plausible.none)) fun _ => ?_
      exact scanSei_yields nal 1 (by omega) st

theorem isStartCode_yields (b : Text) (i : Nat) :
    Yields (isStartCode b i) fun found => ∀ start, found = some start → i + 3 ≤ start ∧ start ≤ b.length := by
  have absent : ∀ start, (none : Option Nat) = some start → i + 3 ≤ start ∧ start ≤ b.length := fun _ found => by cases found
  unfold isStartCode
  refine Yields.ite (fun _ => Yields.pure absent) fun three => ?_
  refine (readAt_yields (by omega)).bind fun first _ => Yields.ite (fun _ => Yields.pure absent) fun _ => ?_
  refine (readAt_yields (by omega)).bind fun second _ => Yields.ite (fun _ => Yields.pure absent) fun _ => ?_
  refine (readAt_yields (by omega)).bind fun third _ => Yields.ite (fun _ => Yields.pure ?_) fun _ => ?_
  · intro start found
    cases found
    omega
  · refine Yields.ite (fun four => ?_) fun _ => Yields.pure absent
    refine (readAt_yields (by omega)).bind fun fourth _ => Yields.ite (fun _ => Yields.pure ?_) fun _ => Yields.pure absent
    intro start found
    cases found
    omega

theorem nalEnd_yields (b : Text) (bound stop : Nat) (inside : stop ≤ b.length) (enough : b.length < bound + stop) :
    Yields (nalEnd b bound stop) fun last => stop ≤ last ∧ last ≤ b.length := by
  induction bound generalizing stop with
  | zero => omega
  | succ bound ih =>
    rw [nalEnd]
    refine Yields.ite (fun three => ?_) fun _ => Yields.pure ⟨inside,Nat.le_refl _⟩
    refine (isStartCode_yields b stop).bind fun found _ => ?_
    cases found with
    | none => exact (ih (stop + 1) (by omega) (by omega)).imp fun last ⟨low,high⟩ => ⟨by omega,high⟩
    | some start => exact Yields.pure ⟨Nat.le_refl stop,inside⟩

theorem Plausible.or {found candidate : Option ClockTimestamp} (first : Plausible found) (second : Plausible candidate) :
    Plausible (found.or candidate) := by
  cases found with
  | none => exact second
  | some tc => exact first

/-- Each pass moves on: past one byte, or past a start code at least. A timecode that
has been found stays. -/
theorem scanAuFrom_yields (b : Text) (bound i : Nat) (st : State) (found : Option ClockTimestamp)
    (inside : i ≤ b.length) (enough : b.length < bound + i) (sane : Plausible found) :
    Yields (scanAuFrom b bound i st found) fun result =>
      st.Walked result ∧ ∀ tc, found = some tc → result.2 = some tc := by
  induction bound generalizing i st found with
  | zero => omega
  | succ bound ih =>
    rw [scanAuFrom]
    refine Yields.ite (fun three => ?_) fun _ => Yields.pure ⟨State.Walked.same sane,fun _ same => same⟩
    refine (isStartCode_yields b i).bind fun start isStart => ?_
    cases start with
    | none => exact ih (i + 1) st found (by omega) (by omega) sane
    | some nalStart =>
      obtain ⟨low,high⟩ := isStart nalStart rfl
      refine (nalEnd_yields b (b.length + 1) nalStart high (by omega)).bind fun stop ⟨onward,within⟩ => ?_
      refine Yields.ite (fun some => ?_) fun _ => ih stop st found within (by omega) sane
      refine (window_yields (by omega)).bind fun nal _ => ?_
      refine (scanNal_yields nal st).bind fun ⟨st',candidate⟩ walked => ?_
      have later := ih stop st' (found.or candidate) within (by omega) (sane.or walked.sane)
      refine later.imp fun result ⟨further,kept⟩ => ⟨walked.trans further,fun tc same => kept tc ?_⟩
      rw [same]
      rfl

structure State.Filled (st : State) : Prop where
  short : st.au.length ≤ auPrefixMax
  closed : st.auOpen = false → st.au = []
  mapped : st.codec = .none ↔ st.videoPid = invalidPid
  sps : st.spsValid = true → st.sps.Sound
  sane : st.valid = true → isPlausible st.timecode = true

/-- The state after each packet: an open access unit has room left. -/
structure State.Sound (st : State) : Prop extends State.Filled st where
  room : st.auOpen = true → st.au.length < auPrefixMax

theorem State.init_sound : State.init.Sound where
  short := by decide
  closed := fun _ => rfl
  mapped := by decide
  sps := fun valid => by cases valid
  sane := fun valid => by cases valid
  room := fun isOpen => by cases isOpen

theorem State.Filled.sound {st : State} (filled : st.Filled) (closed : st.auOpen = false) : st.Sound where
  toFilled := filled
  room := fun isOpen => by rw [closed] at isOpen; cases isOpen

theorem State.Filled.closeAu {st : State} (filled : st.Filled) {result : State × Option ClockTimestamp}
    (walked : st.Walked result) : result.1.closeAu.Filled where
  short := Nat.zero_le _
  closed := fun _ => rfl
  mapped := by
    have mapped := filled.mapped
    show result.1.codec = .none ↔ result.1.videoPid = invalidPid
    rw [walked.others]
    exact mapped
  sps := walked.sps filled.sps
  sane := by
    show result.1.valid = true → isPlausible result.1.timecode = true
    rw [walked.others]
    exact filled.sane

def State.SameMap (st st' : State) : Prop :=
  st'.pmtPid = st.pmtPid ∧ st'.videoPid = st.videoPid ∧ st'.codec = st.codec

theorem State.Walked.map {st : State} {result : State × Option ClockTimestamp} (walked : st.Walked result) :
    st.SameMap result.1 := by
  rw [walked.others]
  exact ⟨rfl,rfl,rfl⟩

theorem State.Walked.updates {st : State} {result : State × Option ClockTimestamp} (walked : st.Walked result) :
    result.1.updates = st.updates := by rw [walked.others]

structure State.Flushed (st : State) (result : State × Nat) : Prop where
  sound : result.1.Sound
  closed : result.1.auOpen = false
  map : st.SameMap result.1
  updates : result.1.updates % 2 ^ 64 = (st.updates + result.2) % 2 ^ 64

theorem auFlush_yields {st : State} (filled : st.Filled) : Yields (auFlush st) st.Flushed := by
  unfold auFlush
  refine Yields.ite (fun _ => Yields.pure ?_) fun _ => ?_
  · have kept := filled.closeAu (State.Walked.same Plausible.none)
    exact ⟨kept.sound rfl,rfl,⟨rfl,rfl,rfl⟩,rfl⟩
  · unfold scanAuPrefix
    refine (scanAuFrom_yields st.au _ 0 st none (Nat.zero_le _) (by omega) Plausible.none).bind fun ⟨st',found⟩ ⟨walked,_⟩ => ?_
    have kept := filled.closeAu walked
    have counted : st'.updates = st.updates := walked.updates
    cases found with
    | none =>
      refine Yields.pure ⟨kept.sound rfl,rfl,walked.map,?_⟩
      show st'.updates % 2 ^ 64 = st.updates % 2 ^ 64
      rw [counted]
    | some tc =>
      refine Yields.pure ⟨State.Filled.sound ?_ rfl,rfl,walked.map,?_⟩
      · exact ⟨kept.short,kept.closed,kept.mapped,kept.sps,fun _ => walked.sane tc rfl⟩
      · show (st'.updates + 1) % 2 ^ 64 % 2 ^ 64 = (st.updates + 1) % 2 ^ 64
        rw [Nat.mod_mod,counted]

/-- Only the access unit under way can be new, and has grown by `size` bytes at most. -/
def State.Grown (st : State) (size : Nat) (st' : State) : Prop :=
  ∃ pts isOpen au, st' = {st with auPts := pts,auOpen := isOpen,au := au} ∧ au.length ≤ st.au.length + size

theorem State.Grown.same (st : State) (size : Nat) : st.Grown size st :=
  ⟨st.auPts,st.auOpen,st.au,rfl,Nat.le_add_right _ _⟩

theorem auAppend_yields {st : State} (filled : st.Filled) (isOpen : st.auOpen = true) (data : Text) :
    Yields (auAppend st data) fun st' => st'.Filled ∧ st.Grown data.length st' := by
  have room : (data.take (auPrefixMax - st.au.length)).length ≤ auPrefixMax - st.au.length := List.length_take_le _ _
  have part : (data.take (auPrefixMax - st.au.length)).length ≤ data.length := List.length_take_le' _ _
  unfold auAppend
  refine Yields.ite (fun _ => Yields.pure ⟨filled,State.Grown.same st _⟩) fun _ => ?_
  have short := filled.short
  refine Yields.ite (fun fits => Yields.pure ⟨?_,?_⟩) fun full => absurd (by omega) full
  · refine ⟨?_,fun closed => ?_,filled.mapped,filled.sps,filled.sane⟩
    · rw [List.length_append]
      exact fits
    · rw [isOpen] at closed
      cases closed
  · refine ⟨st.auPts,st.auOpen,_,rfl,?_⟩
    rw [List.length_append]
    omega

theorem flushFull_yields {st : State} (filled : st.Filled) : Yields (flushFull st) fun result => result.1.Sound := by
  unfold flushFull
  refine Yields.ite (fun _ => (auFlush_yields filled).imp fun _ met => met.sound) fun notFull => Yields.pure ?_
  refine ⟨filled,fun isOpen => ?_⟩
  exact Nat.lt_of_not_le fun full => notFull ⟨isOpen,full⟩

end AccessUnit

section Packets

theorem wordAt_yields {s : Text} {q : Nat} (values : Nat) (inside : q + 1 < s.length) :
    Yields (wordAt s q values) fun _ => True := by
  unfold wordAt
  refine (readAt_yields (by omega)).bind fun high _ => ?_
  exact (readAt_yields inside).bind fun low _ => Yields.pure trivial

theorem readPts_yields {b : Text} (long : 5 ≤ b.length) : Yields (readPts b) fun _ => True := by
  unfold readPts
  refine (readAt_yields (by omega)).bind fun b0 _ => (readAt_yields (by omega)).bind fun b1 _ => ?_
  refine (readAt_yields (by omega)).bind fun b2 _ => (readAt_yields (by omega)).bind fun b3 _ => ?_
  exact (readAt_yields (by omega)).bind fun b4 _ => Yields.pure trivial

theorem psiSection_yields (payload : Text) (tableId : UInt8) : Yields (psiSection payload tableId) fun _ => True := by
  unfold psiSection
  refine Yields.ite (fun _ => Yields.pure trivial) fun some => ?_
  refine (readAt_yields (by omega)).bind fun pointer _ => ?_
  refine Yields.ite (fun _ => Yields.pure trivial) fun eight => ?_
  refine (window_yields (by omega)).bind fun s long => ?_
  refine (readAt_yields (by omega)).bind fun table _ => ?_
  refine Yields.ite (fun _ => Yields.pure trivial) fun _ => ?_
  refine (wordAt_yields 16 (by omega)).bind fun sectionLength _ => ?_
  refine Yields.ite (fun _ => Yields.pure trivial) fun fits => ?_
  exact (window_yields (by omega)).bind fun sect _ => Yields.pure trivial

theorem State.Sound.newProgram {st : State} (sound : st.Sound) (pmtPid : Int) : (st.newProgram pmtPid).Sound where
  short := Nat.zero_le _
  closed := fun _ => rfl
  mapped := ⟨fun _ => rfl,fun _ => rfl⟩
  sps := fun valid => by cases valid
  sane := sound.sane
  room := fun isOpen => by cases isOpen

theorem patFrom_yields {st : State} (sound : st.Sound) (s : Text) (bound q : Nat) (some : 0 < bound)
    (enough : s.length < bound + q) : Yields (patFrom s st bound q) State.Sound := by
  induction bound generalizing q with
  | zero => omega
  | succ bound ih =>
    rw [patFrom]
    refine Yields.ite (fun four => ?_) fun _ => Yields.pure sound
    refine (wordAt_yields 256 (by omega)).bind fun programNumber _ => ?_
    refine Yields.ite (fun _ => ih (q + 4) (by omega) (by omega)) fun _ => ?_
    refine (wordAt_yields 32 (by omega)).bind fun pmtPid _ => Yields.pure ?_
    split
    · exact sound.newProgram pmtPid
    · exact sound

theorem parsePat_yields {st : State} (sound : st.Sound) (payload : Text) : Yields (parsePat payload st) State.Sound := by
  unfold parsePat
  refine (psiSection_yields payload 0x00).bind fun sect _ => ?_
  cases sect with
  | none => exact Yields.pure sound
  | some s => exact patFrom_yields sound s (s.length + 1) 8 (by omega) (by omega)

theorem State.Sound.newVideo {st : State} (sound : st.Sound) (videoPid : Nat) {codec : Codec} (known : codec ≠ .none) :
    (st.newVideo videoPid codec).Sound where
  short := Nat.zero_le _
  closed := fun _ => rfl
  mapped := ⟨fun unknown => absurd unknown known,fun invalid => by cases invalid⟩
  sps := fun valid => by cases valid
  sane := sound.sane
  room := fun isOpen => by cases isOpen

theorem pmtFrom_yields {st : State} (sound : st.Sound) (s : Text) (bound q : Nat) (some : 0 < bound)
    (enough : s.length < bound + q) : Yields (pmtFrom s st bound q) State.Sound := by
  induction bound generalizing q with
  | zero => omega
  | succ bound ih =>
    rw [pmtFrom]
    refine Yields.ite (fun five => ?_) fun _ => Yields.pure sound
    refine (readAt_yields (by omega)).bind fun streamType _ => ?_
    refine (wordAt_yields 32 (by omega)).bind fun elementaryPid _ => ?_
    refine (wordAt_yields 16 (by omega)).bind fun esInfoLength _ => ?_
    refine Yields.ite (fun known => Yields.pure ?_) fun _ => ih _ (by omega) (by omega)
    split
    · exact sound.newVideo elementaryPid known
    · exact sound

theorem parsePmt_yields {st : State} (sound : st.Sound) (payload : Text) : Yields (parsePmt payload st) State.Sound := by
  unfold parsePmt
  refine (psiSection_yields payload 0x02).bind fun sect _ => ?_
  cases sect with
  | none => exact Yields.pure sound
  | some s =>
    refine Yields.ite (fun _ => Yields.pure sound) fun twelve => ?_
    refine (wordAt_yields 16 (by omega)).bind fun programInfoLength _ => ?_
    exact pmtFrom_yields sound s (s.length + 1) _ (by omega) (by omega)

theorem State.Filled.opened {st : State} (filled : st.Filled) (pts : Int) :
    State.Filled {st with auPts := pts,auOpen := true} :=
  ⟨filled.short,fun closed => (by cases closed),filled.mapped,filled.sps,filled.sane⟩

/-- A payload that begins a PES packet opens an access unit with what follows the header. -/
theorem pesHeader_cases (payload : Text) (st : State) :
    pesHeader payload st = .ok st ∨
      ∃ pts part, part.length ≤ payload.length ∧ pesHeader payload st = auAppend {st with auPts := pts,auOpen := true} part := by
  unfold pesHeader
  by_cases nine : payload.length < 9
  · rw [if_pos nine]
    exact .inl rfl
  rw [if_neg nine,readAt_eq (i := 0) (by omega),ok_bind,readAt_eq (i := 1) (by omega),ok_bind,readAt_eq (i := 2) (by omega),ok_bind]
  by_cases noStart : payload[0] ≠ 0 ∨ payload[1] ≠ 0 ∨ payload[2] ≠ 1
  · rw [if_pos noStart]
    exact .inl rfl
  rw [if_neg noStart,readAt_eq (i := 3) (by omega),ok_bind]
  by_cases noVideo : payload[3] < 0xE0 ∨ (0xEF : UInt8) < payload[3]
  · rw [if_pos noVideo]
    exact .inl rfl
  rw [if_neg noVideo,readAt_eq (i := 7) (by omega),ok_bind,readAt_eq (i := 8) (by omega),ok_bind]
  dsimp only
  generalize payload[7].toNat = flags
  generalize payload[8].toNat = headerLen
  by_cases cut : payload.length < 9 + headerLen
  · rw [if_pos cut]
    exact .inl rfl
  right
  have ptsYields : Yields (if (flags / 64 = 2 ∧ 5 ≤ headerLen) ∨ (flags / 64 = 3 ∧ 10 ≤ headerLen) then do
      readPts (← window payload 9 (payload.length - 9))
    else pure st.auPts) fun _ => True := by
    refine Yields.ite (fun present => ?_) fun _ => Yields.pure trivial
    exact (window_yields (by omega)).bind fun part long => readPts_yields (by omega)
  obtain ⟨pts,stamped,_⟩ := ptsYields
  have inside : 9 + headerLen + (payload.length - (9 + headerLen)) ≤ payload.length := by omega
  obtain ⟨part,content,long⟩ := window_yields inside
  refine ⟨pts,part,by omega,?_⟩
  rw [if_neg cut,stamped,ok_bind,content,ok_bind]

theorem pesHeader_yields {st : State} (filled : st.Filled) (payload : Text) :
    Yields (pesHeader payload st) fun st' => st'.Filled ∧ st.Grown payload.length st' := by
  obtain same | ⟨pts,part,long,opened⟩ := pesHeader_cases payload st
  · rw [same]
    exact Yields.pure ⟨filled,State.Grown.same st _⟩
  · rw [opened]
    refine (auAppend_yields (filled.opened pts) rfl part).imp fun st' ⟨filled',grown⟩ => ⟨filled',?_⟩
    obtain ⟨pts',isOpen,au,rfl,short⟩ := grown
    refine ⟨pts',isOpen,au,rfl,Nat.le_trans short ?_⟩
    show st.au.length + part.length ≤ st.au.length + payload.length
    omega

theorem feedVideoPacket_yields {st : State} (sound : st.Sound) (payload : Text) (pusi : Bool) :
    Yields (feedVideoPacket payload pusi st) fun result => result.1.Sound := by
  unfold feedVideoPacket
  refine Yields.ite (fun _ => ?_) fun _ => ?_
  · refine (auFlush_yields sound.toFilled).bind fun ⟨flushed,first⟩ ⟨kept,_,_,_⟩ => ?_
    have fresh : State.Filled {flushed with auPts := invalidPts} :=
      ⟨kept.short,kept.closed,kept.mapped,kept.sps,kept.sane⟩
    refine (pesHeader_yields fresh payload).bind fun opened ⟨filled,_⟩ => ?_
    exact (flushFull_yields filled).bind fun ⟨st',second⟩ sound' => Yields.pure sound'
  · refine Yields.ite (fun isOpen => ?_) fun _ => flushFull_yields sound.toFilled
    exact (auAppend_yields sound.toFilled isOpen payload).bind fun st' ⟨filled,_⟩ => flushFull_yields filled

theorem route_yields {st : State} (sound : st.Sound) (pid : Nat) (pusi : Bool) (payload : Text) :
    Yields (route pid pusi payload st) fun result => result.1.Sound := by
  unfold route
  refine Yields.ite (fun _ => ?_) fun _ => Yields.ite (fun _ => ?_) fun _ => ?_
  · refine Yields.ite (fun _ => ?_) fun _ => Yields.pure sound
    exact (parsePat_yields sound payload).bind fun st' sound' => Yields.pure sound'
  · refine Yields.ite (fun _ => ?_) fun _ => Yields.pure sound
    exact (parsePmt_yields sound payload).bind fun st' sound' => Yields.pure sound'
  · exact Yields.ite (fun _ => feedVideoPacket_yields sound payload _) fun _ => Yields.pure sound

theorem scanPacket_yields {st : State} (sound : st.Sound) {p : Text} (whole : p.length = 188) :
    Yields (scanPacket p st) fun result => result.1.Sound := by
  unfold scanPacket
  refine (readAt_yields (by omega)).bind fun p0 _ => Yields.ite (fun _ => Yields.pure sound) fun _ => ?_
  refine (readAt_yields (by omega)).bind fun p1 _ => Yields.ite (fun _ => Yields.pure sound) fun _ => ?_
  refine (wordAt_yields 32 (by omega)).bind fun pid _ => Yields.ite (fun _ => Yields.pure sound) fun _ => ?_
  refine (readAt_yields (by omega)).bind fun p3 _ => Yields.ite (fun _ => Yields.pure sound) fun _ => ?_
  have posYields : Yields (if p3.toNat / 16 % 4 / 2 = 1 then do pure (4 + (1 + (← readAt p 4).toNat)) else pure 4)
      fun _ => True :=
    Yields.ite (fun _ => (readAt_yields (by omega)).bind fun _ _ => Yields.pure trivial) fun _ => Yields.pure trivial
  refine posYields.bind fun pos _ => Yields.ite (fun _ => Yields.pure sound) fun fits => ?_
  exact (window_yields (by omega)).bind fun payload _ => route_yields sound pid _ payload

end Packets

section Calls

theorem int32_of_small {x : Nat} (small : x < 2 ^ 31) : int32 x = x := int32_small (by omega) (by omega)

/-- `INT_MAX` down to a whole number of packets, from where `i + TS_PACK_LEN` overflows. -/
def wrapAt : Nat := 188 * 11422785

theorem scanFrom_packet {data : Text} {k : Nat} (inside : 188 * k + 188 ≤ data.length) (small : k < 11422785)
    (bound : Nat) (st : State) (decoded : Nat) :
    scanFrom data (bound + 1) (188 * k : Nat) st decoded = (do
      let (st,count) ← scanPacket ((data.drop (188 * k)).take 188) st
      scanFrom data bound (188 * (k + 1) : Nat) st (decoded + count)) := by
  have next : int32 ((188 * k : Nat) + 188) = (188 * (k + 1) : Nat) := int32_of_small (x := 188 * (k + 1)) (by omega)
  rw [scanFrom,next,if_pos (by omega),if_neg (by omega),Int.toNat_natCast,window_eq inside,ok_bind]

theorem scanFrom_end {data : Text} {k : Nat} (past : data.length < 188 * k + 188) (small : k < 11422785)
    (bound : Nat) (st : State) (decoded : Nat) : scanFrom data (bound + 1) (188 * k : Nat) st decoded = .ok (st,decoded) := by
  have next : int32 ((188 * k : Nat) + 188) = (188 * (k + 1) : Nat) := int32_of_small (x := 188 * (k + 1)) (by omega)
  rw [scanFrom,next,if_neg (by omega)]
  rfl

theorem packet_whole {data : Text} {k : Nat} (inside : 188 * k + 188 ≤ data.length) :
    ((data.drop (188 * k)).take 188).length = 188 := by
  rw [List.length_take,List.length_drop]
  omega

theorem scanFrom_yields {data : Text} (short : data.length < wrapAt) (bound k : Nat) (inside : 188 * k ≤ data.length)
    (enough : data.length < bound + 188 * k) {st : State} (sound : st.Sound) (decoded : Nat) :
    Yields (scanFrom data bound (188 * k : Nat) st decoded) fun result => result.1.Sound := by
  induction bound generalizing k st decoded with
  | zero => omega
  | succ bound ih =>
    unfold wrapAt at short
    by_cases more : 188 * k + 188 ≤ data.length
    · rw [scanFrom_packet more (by omega)]
      refine (scanPacket_yields sound (packet_whole more)).bind fun ⟨st',count⟩ sound' => ?_
      exact ih (k + 1) more (by omega) sound' (decoded + count)
    · rw [scanFrom_end (by omega) (by omega)]
      exact Yields.pure sound

/-- A longer buffer: the index wraps below zero, which is not past the end. -/
theorem scanFrom_faults {kept : State → Prop}
    (scans : ∀ {p : Text} {st : State}, p.length = 188 → kept st → Yields (scanPacket p st) fun result => kept result.1)
    {data : Text} (long : wrapAt ≤ data.length) (sized : data.length ≤ 2147483647) (bound k : Nat)
    (below : k ≤ 11422785) (enough : data.length < bound + 188 * k) {st : State} (start : kept st) (decoded : Nat) :
    scanFrom data bound (188 * k : Nat) st decoded = .error .outOfBounds := by
  induction bound generalizing k st decoded with
  | zero =>
    unfold wrapAt at long
    omega
  | succ bound ih =>
    unfold wrapAt at long
    by_cases last : k = 11422785
    · have next : int32 ((188 * k : Nat) + 188) = -2147483528 := by rw [last]; decide
      have outside : window data (188 * k) 188 = .error .outOfBounds := if_neg (by omega)
      rw [scanFrom,next,if_pos (by omega),if_neg (by omega),Int.toNat_natCast,outside]
      rfl
    · have more : 188 * k + 188 ≤ data.length := by omega
      obtain ⟨⟨st',count⟩,scanned,start'⟩ := scans (packet_whole more) start
      rw [scanFrom_packet more (by omega),scanned,ok_bind]
      exact ih (k + 1) (by omega) (by omega) start' (decoded + count)

theorem tsScanTimecode_yields {data : Text} (short : data.length < wrapAt) {st : State} (sound : st.Sound) :
    Yields (tsScanTimecode data st) fun result => result.1.Sound :=
  scanFrom_yields short (data.length + 1) 0 (Nat.zero_le _) (by omega) sound 0

theorem tsScanTimecode_faults {data : Text} (long : wrapAt ≤ data.length) (sized : data.length ≤ 2147483647) {st : State}
    (sound : st.Sound) : tsScanTimecode data st = .error .outOfBounds :=
  scanFrom_faults (fun whole sound => scanPacket_yields sound whole) long sized (data.length + 1) 0 (Nat.zero_le _) (by omega) sound 0

def scanCalls : List Text → State → Except Fault (List State)
  | [],_ => pure []
  | data::calls,st => do
    let (st,_) ← tsScanTimecode data st
    let states ← scanCalls calls st
    pure (st::states)

theorem scanCalls_yields {calls : List Text} (short : ∀ data ∈ calls, data.length < wrapAt) {st : State} (sound : st.Sound) :
    Yields (scanCalls calls st) fun states => ∀ st' ∈ states, st'.Sound := by
  induction calls generalizing st with
  | nil => exact Yields.pure fun _ among => by cases among
  | cons data calls ih =>
    rw [scanCalls]
    refine (tsScanTimecode_yields (short data (by simp)) sound).bind fun ⟨st',decoded⟩ sound' => ?_
    refine (ih (fun data' among => short data' (by simp [among])) sound').bind fun states later => Yields.pure ?_
    intro st'' among
    cases among with
    | head => exact sound'
    | tail _ among => exact later st'' among

theorem scanCalls_short {calls : List Text} (sized : ∀ data ∈ calls, data.length ≤ 2147483647) {st : State}
    (sound : st.Sound) {states : List State} (ran : scanCalls calls st = .ok states) :
    ∀ data ∈ calls, data.length < wrapAt := by
  induction calls generalizing st states with
  | nil => exact fun _ among => by cases among
  | cons data calls ih =>
    have here : data.length < wrapAt := by
      by_contra long
      rw [scanCalls,tsScanTimecode_faults (Nat.le_of_not_lt long) (sized data (by simp)) sound] at ran
      cases ran
    obtain ⟨⟨st',decoded⟩,scanned,sound'⟩ := tsScanTimecode_yields here sound
    rw [scanCalls,scanned,ok_bind] at ran
    intro data' among
    cases among with
    | head => exact here
    | tail _ among =>
      obtain ⟨later,rest,_⟩ := bind_eq_ok ran
      exact ih (fun data' among => sized data' (by simp [among])) sound' rest data' among

theorem scan_calls_safe_iff (calls : List Text) (sized : ∀ data ∈ calls, data.length ≤ 2147483647) :
    (∃ states, scanCalls calls State.init = .ok states ∧ ∀ st ∈ states, st.Sound) ↔
      ∀ data ∈ calls, data.length < 188 * (2147483647 / 188) := by
  constructor
  · intro ⟨states,ran,_⟩
    exact scanCalls_short sized State.init_sound ran
  · exact fun short => scanCalls_yields short State.init_sound

theorem scan_calls_safe_iff_short_calls :
    (∀ data ∈ [[0x47],List.replicate 188 (0x47 : UInt8)], data.length ≤ 2147483647) ∧
      ∃ states, scanCalls [[0x47],List.replicate 188 0x47] State.init = .ok states ∧ ∀ st ∈ states, st.Sound := by
  have sized : ∀ data ∈ [[0x47],List.replicate 188 (0x47 : UInt8)], data.length ≤ 188 := by
    intro data among
    rw [List.mem_pair] at among
    obtain rfl | rfl := among
    · decide
    · exact Nat.le_of_eq List.length_replicate
  have fits : ∀ data ∈ [[0x47],List.replicate 188 (0x47 : UInt8)], data.length ≤ 2147483647 :=
    fun data among => Nat.le_trans (sized data among) (by decide)
  refine ⟨fits,(scan_calls_safe_iff _ fits).mpr fun data among => ?_⟩
  exact Nat.lt_of_le_of_lt (sized data among) (by decide)

theorem longest_buffer_faults :
    ¬ ∃ states, scanCalls [List.replicate 2147483580 0] State.init = .ok states ∧ ∀ st ∈ states, st.Sound := by
  have faults : ∀ data : Text, data.length = 2147483580 → scanCalls [data] State.init = .error .outOfBounds := by
    intro data long
    have whole : wrapAt ≤ data.length := by rw [long]; decide
    rw [scanCalls,tsScanTimecode_faults whole (by rw [long]; decide) State.init_sound]
    rfl
  intro ⟨states,ran,_⟩
  rw [faults _ List.length_replicate] at ran
  cases ran

end Calls

end SrtLiveServer.Timecode
