import SrtLiveServer.TimecodeEncoding
import SrtLiveServer.TimecodeSafety

/-! The scanner's SEI parsers on what a sender has encoded: they find the timecode behind
other messages, and none where there is none. -/
namespace SrtLiveServer.Timecode
open Bytes Checked Bits AnnexB

section Payloads

variable {tc : ClockTimestamp}

theorem isPlausible_bounds (sane : isPlausible tc = true) : tc.hours < 2 ^ 5 ∧ tc.minutes < 2 ^ 6 ∧ tc.seconds < 2 ^ 6 := by
  simp only [isPlausible,Bool.and_eq_true,decide_eq_true_eq] at sane
  omega

theorem hmsFields_reads {form : HmsForm} (sane : isPlausible tc = true) (fits : form.Fits tc) :
    Reads (hmsFields form.isFull) (form.bits tc) (tc.hours,tc.minutes,tc.seconds) := by
  obtain ⟨hours,minutes,seconds⟩ := isPlausible_bounds sane
  have hoursRead : Reads (brU 5) (toBits 5 tc.hours) tc.hours := Reads.field hours (by decide) (by decide)
  have minutesRead : Reads (brU 6) (toBits 6 tc.minutes) tc.minutes := Reads.field minutes (by decide) (by decide)
  have secondsRead : Reads (brU 6) (toBits 6 tc.seconds) tc.seconds := Reads.field seconds (by decide) (by decide)
  unfold hmsFields
  cases form with
  | full =>
    rw [if_pos (by decide)]
    exact secondsRead.next (minutesRead.next (hoursRead.next (Reads.pure _)))
  | nothing =>
    obtain ⟨noHours,noMinutes,noSeconds⟩ := fits
    rw [if_neg (by decide),noHours,noMinutes,noSeconds]
    show Reads _ [[false]].flatten _
    refine (Reads.flag false).next ?_
    rw [if_pos (by decide)]
    exact Reads.pure _
  | seconds =>
    obtain ⟨noHours,noMinutes⟩ := fits
    rw [if_neg (by decide),noHours,noMinutes]
    refine (Reads.flag true).next ?_
    rw [if_neg (by decide)]
    refine secondsRead.next ((Reads.flag false).next ?_)
    rw [if_pos (by decide)]
    exact Reads.pure _
  | minutes =>
    have noHours : tc.hours = 0 := fits
    rw [if_neg (by decide),noHours]
    refine (Reads.flag true).next ?_
    rw [if_neg (by decide)]
    refine secondsRead.next ((Reads.flag true).next ?_)
    rw [if_neg (by decide)]
    refine minutesRead.next ((Reads.flag false).next ?_)
    rw [if_pos (by decide)]
    exact Reads.pure _
  | hours =>
    rw [if_neg (by decide)]
    refine (Reads.flag true).next ?_
    rw [if_neg (by decide)]
    refine secondsRead.next ((Reads.flag true).next ?_)
    rw [if_neg (by decide)]
    refine minutesRead.next ((Reads.flag true).next ?_)
    rw [if_neg (by decide)]
    exact hoursRead.next (Reads.pure _)

theorem readHms_reads {form : HmsForm} (sane : isPlausible tc = true) (fits : form.Fits tc) :
    Reads (readHms form.isFull) (form.bits tc) (some (tc.hours,tc.minutes,tc.seconds)) := by
  have whole : Reads (readHms form.isFull) (form.bits tc ++ []) (some (tc.hours,tc.minutes,tc.seconds)) :=
    (hmsFields_reads sane fits).bind (Reads.check (Reads.pure _))
  rw [List.append_nil] at whole
  exact whole

theorem timeCodeFrom_stamp (sei : TimeCode) (frames : tc.frames < 2 ^ 9) (sane : isPlausible tc = true)
    (fits : sei.form.Fits tc) (left : Nat) : Reads (timeCodeFrom (left + 1)) (sei.stamp tc) (some tc) := by
  rw [timeCodeFrom]
  refine Reads.check ?_
  rw [if_neg (by decide)]
  refine (Reads.flag true).next ?_
  rw [if_neg (by decide)]
  refine (Reads.flag sei.fieldBased).skip.next ?_
  refine (Reads.brU sei.counting (by decide) (by decide)).skip.next ?_
  refine (Reads.flag sei.form.isFull).next ?_
  refine (Reads.flag sei.discontinuity).skip.next ?_
  refine (Reads.flag tc.dropFrame).next ?_
  refine (Reads.field frames (by decide) (by decide)).next ?_
  rw [toNat_flag]
  refine (readHms_reads sane fits).next ?_
  have offset := sei.offset
  refine (Reads.field (by omega) (by decide) (by decide)).next ?_
  refine (Reads.skipIf_brI rfl (by omega)).next ?_
  refine Reads.check ?_
  rw [if_neg (by simp [sane]),toNat_flag]
  exact Reads.pure _

theorem timeCodeFrom_absent {absent left : Nat} {bits : List Bool} {found : Option ClockTimestamp} (few : absent ≤ left)
    (later : Reads (timeCodeFrom (left - absent)) bits found) :
    Reads (timeCodeFrom left) (List.replicate absent false ++ bits) found := by
  induction absent generalizing left with
  | zero => exact later
  | succ absent ih =>
    obtain ⟨left,rfl⟩ : ∃ n, left = n + 1 := ⟨left - 1,by omega⟩
    rw [timeCodeFrom]
    refine Reads.check ?_
    rw [if_neg (by decide)]
    refine (Reads.flag false).bind ?_
    rw [if_pos (by decide)]
    refine ih (by omega) ?_
    rwa [Nat.add_sub_add_right] at later

theorem picTimingFrom_stamp {sps : Sps} (sei : PicTiming sps) (small : sps.timeOffsetLength ≤ 31) (frames : tc.frames < 2 ^ 8)
    (sane : isPlausible tc = true) (fits : sei.form.Fits tc) (left : Nat) :
    Reads (picTimingFrom sps.timeOffsetLength (left + 1)) (sei.stamp tc) (some tc) := by
  rw [picTimingFrom]
  refine Reads.check ?_
  rw [if_neg (by decide)]
  refine (Reads.flag true).next ?_
  rw [if_neg (by decide)]
  refine (Reads.brU sei.scanned (by decide) (by decide)).skip.next ?_
  refine (Reads.flag sei.fieldBased).skip.next ?_
  refine (Reads.brU sei.counting (by decide) (by decide)).skip.next ?_
  refine (Reads.flag sei.form.isFull).next ?_
  refine (Reads.flag sei.discontinuity).skip.next ?_
  refine (Reads.flag tc.dropFrame).next ?_
  refine (Reads.field frames (by decide) (by decide)).next ?_
  rw [toNat_flag]
  refine (readHms_reads sane fits).next ?_
  refine (Reads.skipIf_brI sei.offset (by omega)).next ?_
  refine Reads.check ?_
  rw [if_neg (by simp [sane]),toNat_flag]
  exact Reads.pure _

theorem picTimingFrom_absent {timeOffsetLength absent left : Nat} {bits : List Bool} {found : Option ClockTimestamp}
    (few : absent ≤ left) (later : Reads (picTimingFrom timeOffsetLength (left - absent)) bits found) :
    Reads (picTimingFrom timeOffsetLength left) (List.replicate absent false ++ bits) found := by
  induction absent generalizing left with
  | zero => exact later
  | succ absent ih =>
    obtain ⟨left,rfl⟩ : ∃ n, left = n + 1 := ⟨left - 1,by omega⟩
    rw [picTimingFrom]
    refine Reads.check ?_
    rw [if_neg (by decide)]
    refine (Reads.flag false).bind ?_
    rw [if_pos (by decide)]
    refine ih (by omega) ?_
    rwa [Nat.add_sub_add_right] at later

theorem delays_read {sps : Sps} (sound : sps.Sound) {cpbRemoval dpbOutput : List Bool} (delays : sps.Delays cpbRemoval dpbOutput) :
    Reads (skipIf (sps.cpbDpbDelaysPresent = true) (do
      skip (brU sps.cpbRemovalDelayLength)
      skip (brU sps.dpbOutputDelayLength))) (cpbRemoval ++ dpbOutput) () := by
  unfold Sps.Delays at delays
  unfold skipIf
  by_cases present : sps.cpbDpbDelaysPresent = true
  · rw [if_pos present] at delays
    rw [if_pos present]
    obtain ⟨cpbPositive,dpbPositive⟩ := sound.present present
    have first := (Reads.brU delays.1 cpbPositive sound.cpbRemoval).skip
    have second := (Reads.brU delays.2 dpbPositive sound.dpbOutput).skip
    exact (first.bind second).skip
  · rw [if_neg present] at delays
    rw [if_neg present,delays.1,delays.2]
    exact Reads.pure ()

theorem parsePicTiming_reads {sps : Sps} (sound : sps.Sound) {cpbRemoval dpbOutput bits : List Bool} {picStruct clocks : Nat}
    (delays : sps.Delays cpbRemoval dpbOutput) (known : numClockTs[picStruct]? = some clocks)
    {found : Option ClockTimestamp} (later : Reads (picTimingFrom sps.timeOffsetLength clocks) bits found) :
    Reads (parsePicTiming sps) ((cpbRemoval ++ dpbOutput) ++ (toBits 4 picStruct ++ bits)) found := by
  have small : picStruct < 9 := (List.getElem?_eq_some_iff.mp known).1
  unfold parsePicTiming
  refine (delays_read sound delays).bind ((Reads.field (by omega) (by decide) (by decide)).bind ?_)
  refine Reads.check ?_
  rw [if_neg (by simp; omega)]
  intro r more fine rest
  obtain ⟨r',ran,fine',rest'⟩ := later r more fine rest
  refine ⟨r',?_,fine',rest'⟩
  have read : readAt numClockTs picStruct = .ok clocks := by
    unfold readAt
    rw [known]
  rw [StateT.run_bind,← ran]
  simp [read]
  rfl

theorem Reads.payload {α : Type} {program : Read α} {bits tail : List Bool} {a : α} {payload : Text} (reads : Reads program bits a)
    (encoded : ofBytes payload = bits ++ tail) : ∃ r', program.run ⟨payload,0,false⟩ = .ok (a,r') := by
  obtain ⟨r',ran,_⟩ := reads ⟨payload,0,false⟩ tail rfl encoded
  exact ⟨r',ran⟩

theorem parseTimeCodeHevc_reads {bits tail : List Bool} {clocks : Nat} {found : Option ClockTimestamp} {payload : Text}
    (few : clocks ≤ 3) (later : Reads (timeCodeFrom clocks) bits found)
    (encoded : ofBytes payload = toBits 2 clocks ++ bits ++ tail) : parseTimeCodeHevc payload = .ok found := by
  have whole : Reads (do timeCodeFrom (← brU 2) : Read (Option ClockTimestamp)) (toBits 2 clocks ++ bits) found :=
    (Reads.field (by omega) (by decide) (by decide)).bind later
  obtain ⟨r',ran⟩ := whole.payload encoded
  unfold parseTimeCodeHevc
  rw [ran]
  rfl

/-- What the codec needs to be known for its payloads to be read. -/
def State.Ready (st : State) : Prop := st.codec ≠ .hevc → st.spsValid = true ∧ st.sps.picStructPresent = true ∧ st.sps.Sound

theorem parsePicTimingH264_reads {st : State} (hevc : st.codec ≠ .hevc) (ready : st.Ready) {bits tail : List Bool}
    {found : Option ClockTimestamp} {payload : Text} (reads : Reads (parsePicTiming st.sps) bits found)
    (encoded : ofBytes payload = bits ++ tail) : parsePicTimingH264 payload st = .ok found := by
  obtain ⟨valid,present,_⟩ := ready hevc
  obtain ⟨r',ran⟩ := reads.payload encoded
  unfold parsePicTimingH264
  rw [if_neg (by simp [valid,present]),ran]
  rfl

theorem parsePayload_holds {st : State} (ready : st.Ready) {payload : Text} (sane : isPlausible tc = true)
    (holds : Holds st.codec st.sps payload tc) : parsePayload st payload = .ok (some tc) := by
  unfold parsePayload
  unfold Holds at holds
  by_cases hevc : st.codec = .hevc
  · rw [if_pos hevc] at holds
    obtain ⟨sei,tail,frames,fits,encoded⟩ := holds
    have present := sei.present
    obtain ⟨left,more⟩ : ∃ left, sei.numClockTs - sei.absent = left + 1 := ⟨sei.numClockTs - sei.absent - 1,by omega⟩
    rw [if_pos hevc]
    refine parseTimeCodeHevc_reads sei.few (timeCodeFrom_absent (Nat.le_of_lt sei.present) ?_) encoded
    rw [more]
    exact timeCodeFrom_stamp sei frames sane fits left
  · rw [if_neg hevc] at holds
    obtain ⟨sei,tail,frames,fits,encoded⟩ := holds
    have present := sei.present
    obtain ⟨left,more⟩ : ∃ left, sei.clocks - sei.absent = left + 1 := ⟨sei.clocks - sei.absent - 1,by omega⟩
    have sound := (ready hevc).2.2
    rw [if_neg hevc]
    refine parsePicTimingH264_reads hevc ready (parsePicTiming_reads sound sei.delays sei.known ?_) encoded
    refine picTimingFrom_absent (Nat.le_of_lt sei.present) ?_
    rw [more]
    exact picTimingFrom_stamp sei sound.timeOffset frames sane fits left

theorem parsePayload_blank {st : State} (ready : st.Ready) {payload : Text} (blank : Blank st.codec st.sps payload) :
    parsePayload st payload = .ok none := by
  unfold parsePayload
  unfold Blank at blank
  by_cases hevc : st.codec = .hevc
  · rw [if_pos hevc] at blank
    obtain ⟨clocks,tail,few,encoded⟩ := blank
    have none : Reads (timeCodeFrom clocks) (List.replicate clocks false ++ []) none := by
      refine timeCodeFrom_absent (Nat.le_refl _) ?_
      rw [Nat.sub_self]
      exact Reads.pure _
    rw [List.append_nil] at none
    rw [if_pos hevc]
    exact parseTimeCodeHevc_reads few none encoded
  · rw [if_neg hevc] at blank
    obtain ⟨cpbRemoval,dpbOutput,picStruct,clocks,tail,delays,known,encoded⟩ := blank
    have none : Reads (picTimingFrom st.sps.timeOffsetLength clocks) (List.replicate clocks false ++ []) none := by
      refine picTimingFrom_absent (Nat.le_refl _) ?_
      rw [Nat.sub_self]
      exact Reads.pure _
    rw [List.append_nil] at none
    rw [if_neg hevc]
    exact parsePicTimingH264_reads hevc ready (parsePicTiming_reads (ready hevc).2.2 delays known none) encoded

end Payloads

section Messages

theorem ffRun_eq (before : Text) (count : Nat) {last : UInt8} (stops : last ≠ 0xFF) (after : Text) (total bound : Nat)
    (enough : (before ++ (List.replicate count 0xFF ++ last::after)).length < bound + before.length) :
    ffRun (before ++ (List.replicate count 0xFF ++ last::after)) bound before.length total =
      .ok (before.length + count,total + 255 * count) := by
  induction count generalizing before total bound with
  | zero =>
    cases bound with
    | zero => simp at enough
    | succ bound =>
      rw [ffRun,if_pos (by simp),List.replicate_zero,List.nil_append,readAt_append_cons]
      show (if last = 0xFF then _ else _) = _
      rw [if_neg stops]
      rfl
  | succ count ih =>
    cases bound with
    | zero => simp at enough
    | succ bound =>
      have shifted : before ++ (List.replicate (count + 1) 0xFF ++ last::after) =
          (before ++ [0xFF]) ++ (List.replicate count 0xFF ++ last::after) := by simp [List.replicate_succ]
      have later := ih (before ++ [0xFF]) (total + 255) bound (by simp at enough ⊢; omega)
      rw [← shifted,List.length_append,List.length_singleton] at later
      have here : readAt (before ++ (List.replicate (count + 1) 0xFF ++ last::after)) before.length = .ok 0xFF :=
        readAt_append_cons _ _ _
      rw [ffRun,if_pos (by simp),here]
      show ffRun _ bound (before.length + 1) (total + 255) = _
      rw [later]
      congr 2 <;> omega

theorem byteCode_length (n : Nat) : (byteCode n).length = n / 255 + 1 := by simp [byteCode]

theorem byteCoded_eq (before : Text) (n : Nat) (after : Text) :
    byteCoded (before ++ (byteCode n ++ after)) before.length = .ok (some (before.length + (byteCode n).length,n)) := by
  have small : n % 255 < 255 := Nat.mod_lt n (by decide)
  have value : (UInt8.ofNat (n % 255)).toNat = n % 255 := UInt8.toNat_ofNat_of_lt' (Nat.lt_succ_of_lt small)
  have stops : UInt8.ofNat (n % 255) ≠ 0xFF := by
    intro same
    rw [same] at value
    have : (0xFF : UInt8).toNat = 255 := rfl
    omega
  have split : byteCode n ++ after = List.replicate (n / 255) 0xFF ++ UInt8.ofNat (n % 255)::after := by simp [byteCode]
  have ran := ffRun_eq before (n / 255) stops after 0 ((before ++ (byteCode n ++ after)).length + 1) (by rw [split]; omega)
  have last : readAt (before ++ (byteCode n ++ after)) (before.length + n / 255) = .ok (UInt8.ofNat (n % 255)) := by
    rw [readAt_append,split]
    have here := readAt_append_cons (List.replicate (n / 255) (0xFF : UInt8)) (UInt8.ofNat (n % 255)) after
    rwa [List.length_replicate] at here
  rw [← split] at ran
  have within : ¬ (before ++ (byteCode n ++ after)).length ≤ before.length + n / 255 := by
    rw [List.length_append,List.length_append,byteCode_length]
    omega
  unfold byteCoded
  rw [ran]
  show (if (before ++ (byteCode n ++ after)).length ≤ before.length + n / 255 then _ else _) = _
  rw [if_neg within,last,byteCode_length]
  show Except.ok (some (before.length + n / 255 + 1,0 + 255 * (n / 255) + (UInt8.ofNat (n % 255)).toNat)) = _
  rw [value]
  congr 3
  omega

theorem byteCoded_end (rbsp : Text) : byteCoded rbsp rbsp.length = .ok none := by
  unfold byteCoded
  rw [ffRun,if_neg (Nat.lt_irrefl _)]
  show (if rbsp.length ≤ rbsp.length then _ else _) = _
  rw [if_pos (Nat.le_refl _)]
  rfl

theorem SeiMessage.bytes_length (m : SeiMessage) :
    m.bytes.length = (byteCode m.payloadType).length + (byteCode m.payload.length).length + m.payload.length := by
  rw [SeiMessage.bytes,List.length_append,List.length_append,Nat.add_assoc]

theorem scanSeiFrom_message (st : State) (before : Text) (m : SeiMessage) (after : Text) (bound : Nat) :
    scanSeiFrom st (before ++ (m.bytes ++ after)) (bound + 1) before.length =
      if m.payloadType = want st.codec then do
        match ← parsePayload st m.payload with
        | some tc => pure (some tc)
        | none => scanSeiFrom st (before ++ (m.bytes ++ after)) bound (before ++ m.bytes).length
      else scanSeiFrom st (before ++ (m.bytes ++ after)) bound (before ++ m.bytes).length := by
  have typeLength := byteCode_length m.payloadType
  have sizeLength := byteCode_length m.payload.length
  have whole := m.bytes_length
  have total : (before ++ (m.bytes ++ after)).length = before.length + m.bytes.length + after.length := by
    rw [List.length_append,List.length_append]
    omega
  have typed : byteCoded (before ++ (m.bytes ++ after)) before.length =
      .ok (some (before.length + (byteCode m.payloadType).length,m.payloadType)) := by
    rw [SeiMessage.bytes,List.append_assoc]
    exact byteCoded_eq before m.payloadType _
  have sized : byteCoded (before ++ (m.bytes ++ after)) (before.length + (byteCode m.payloadType).length) =
      .ok (some (before.length + (byteCode m.payloadType).length + (byteCode m.payload.length).length,m.payload.length)) := by
    have found := byteCoded_eq (before ++ byteCode m.payloadType) m.payload.length (m.payload ++ after)
    rw [List.length_append] at found
    rw [← found,SeiMessage.bytes]
    simp only [List.append_assoc]
  have cut : window (before ++ (m.bytes ++ after))
      (before.length + (byteCode m.payloadType).length + (byteCode m.payload.length).length) m.payload.length = .ok m.payload := by
    have found := window_append (before ++ (byteCode m.payloadType ++ byteCode m.payload.length)) m.payload after
    rw [List.length_append,List.length_append,← Nat.add_assoc] at found
    rw [← found,SeiMessage.bytes]
    simp only [List.append_assoc]
  have stop : before.length + (byteCode m.payloadType).length + (byteCode m.payload.length).length + m.payload.length =
      (before ++ m.bytes).length := by
    rw [List.length_append]
    omega
  have inside : before.length < (before ++ (m.bytes ++ after)).length := by omega
  obtain ⟨first,read,_⟩ := readAt_yields inside
  rw [scanSeiFrom,if_pos (by omega),read]
  show (if first = 0x80 ∧ (before ++ (m.bytes ++ after)).length ≤ before.length + 1 then _ else _) = _
  rw [if_neg (by omega),typed]
  show (byteCoded _ (before.length + (byteCode m.payloadType).length) >>= _) = _
  rw [sized]
  show (if (((before ++ (m.bytes ++ after)).length : Nat) : Int) - _ < _ then _ else _) = _
  rw [if_neg (by omega),cut,stop]
  rfl

/-- The walk over the messages from `pos` on ends with `found`. -/
def SeiFinds (st : State) (rbsp : Text) (pos : Nat) (found : Option ClockTimestamp) : Prop :=
  ∀ bound, rbsp.length < bound + pos → scanSeiFrom st rbsp bound pos = .ok found

theorem SeiFinds.timed {st : State} (before : Text) {payload : Text} (after : Text) {tc : ClockTimestamp}
    (parsed : parsePayload st payload = .ok (some tc)) :
    SeiFinds st (before ++ (SeiMessage.bytes ⟨want st.codec,payload⟩ ++ after)) before.length (some tc) := by
  intro bound enough
  cases bound with
  | zero => simp at enough
  | succ bound =>
    rw [scanSeiFrom_message,if_pos rfl,parsed]
    rfl

theorem SeiFinds.untimed {st : State} (before : Text) (m : SeiMessage) (after : Text) {found : Option ClockTimestamp}
    (nothing : m.payloadType ≠ want st.codec ∨ parsePayload st m.payload = .ok none)
    (later : SeiFinds st (before ++ (m.bytes ++ after)) (before ++ m.bytes).length found) :
    SeiFinds st (before ++ (m.bytes ++ after)) before.length found := by
  intro bound enough
  cases bound with
  | zero => simp at enough
  | succ bound =>
    have onward : (before ++ (m.bytes ++ after)).length < bound + (before ++ m.bytes).length := by
      have positive : 0 < m.bytes.length := by rw [m.bytes_length,byteCode_length]; omega
      have next : (before ++ m.bytes).length = before.length + m.bytes.length := List.length_append
      omega
    rw [scanSeiFrom_message,later bound onward]
    obtain other | parsed := nothing
    · rw [if_neg other]
    · rw [parsed]
      split
      · rfl
      · rfl

theorem SeiFinds.messages {st : State} {messages : List SeiMessage}
    (nothing : ∀ m ∈ messages, m.payloadType ≠ want st.codec ∨ parsePayload st m.payload = .ok none) (before after : Text)
    {found : Option ClockTimestamp}
    (later : SeiFinds st (before ++ (messages.flatMap SeiMessage.bytes ++ after))
      (before ++ messages.flatMap SeiMessage.bytes).length found) :
    SeiFinds st (before ++ (messages.flatMap SeiMessage.bytes ++ after)) before.length found := by
  induction messages generalizing before with
  | nil =>
    rw [List.flatMap_nil,List.append_nil] at later
    exact later
  | cons m messages ih =>
    have rest := ih (fun m' among => nothing m' (by simp [among])) (before ++ m.bytes)
    simp only [List.flatMap_cons,List.append_assoc] at rest later ⊢
    exact SeiFinds.untimed before m _ (nothing m (by simp)) (rest later)

theorem SeiFinds.zeros (st : State) (count : Nat) (before : Text) :
    SeiFinds st (before ++ List.replicate count 0) before.length none := by
  induction count using Nat.strong_induction_on generalizing before with
  | h count ih =>
    match count with
    | 0 =>
      intro bound enough
      cases bound with
      | zero => simp at enough
      | succ bound =>
        rw [scanSeiFrom,if_neg (by simp)]
        rfl
    | 1 =>
      intro bound enough
      cases bound with
      | zero => simp at enough
      | succ bound =>
        have typed : byteCoded (before ++ [0]) before.length = .ok (some (before.length + 1,0)) := byteCoded_eq before 0 []
        have sized : byteCoded (before ++ [0]) (before.length + 1) = .ok none := by
          have found := byteCoded_end (before ++ [0])
          rwa [List.length_append] at found
        show scanSeiFrom st (before ++ [0]) (bound + 1) before.length = .ok none
        rw [scanSeiFrom,if_pos (by simp),readAt_append_cons,typed]
        show (byteCoded (before ++ [0]) (before.length + 1) >>= _) = _
        rw [sized]
        rfl
    | count + 2 =>
      have other : (0 : Nat) ≠ want st.codec := by
        unfold want
        split <;> decide
      have later := ih count (by omega) (before ++ SeiMessage.bytes ⟨0,[]⟩)
      rw [List.append_assoc] at later
      exact SeiFinds.untimed before ⟨0,[]⟩ (List.replicate count 0) (.inl other) later

theorem SeiFinds.trailing (st : State) (before : Text) (zeros : Nat) :
    SeiFinds st (before ++ 0x80::List.replicate zeros 0) before.length none := by
  cases zeros with
  | zero =>
    intro bound enough
    cases bound with
    | zero => simp at enough
    | succ bound =>
      rw [scanSeiFrom,if_pos (by simp),readAt_append_cons]
      show (if (0x80 : UInt8) = 0x80 ∧ (before ++ [0x80]).length ≤ before.length + 1 then _ else _) = _
      rw [if_pos ⟨rfl,by simp⟩]
      rfl
  | succ zeros =>
    have other : (128 : Nat) ≠ want st.codec := by
      unfold want
      split <;> decide
    have later := SeiFinds.zeros st zeros (before ++ SeiMessage.bytes ⟨128,[]⟩)
    rw [List.append_assoc] at later
    exact SeiFinds.untimed before ⟨128,[]⟩ (List.replicate zeros 0) (.inl other) later

end Messages

section Nal

theorem rbspUnescapeFrom_take (before rest : Text) {cap : Nat} {dst : Text} (zeros : Nat) (fits : dst.length ≤ cap) :
    rbspUnescapeFrom (before ++ rest) cap rest.length before.length dst zeros =
      .ok ((dst ++ unescapeFrom zeros rest).take cap) := by
  induction rest generalizing before dst zeros with
  | nil =>
    rw [unescapeFrom,List.append_nil dst,List.take_of_length_le fits]
    rfl
  | cons c rest ih =>
    rw [List.length_cons,rbspUnescapeFrom]
    by_cases room : dst.length < cap
    · have shifted : before ++ c::rest = (before ++ [c]) ++ rest := by simp
      have next : before.length + 1 = (before ++ [c]).length := by simp
      rw [if_pos room,readAt_append_cons,shifted,next]
      show (if 2 ≤ zeros ∧ c = 3 then _ else _) = _
      rw [unescapeFrom]
      by_cases inserted : 2 ≤ zeros ∧ c = 3
      · rw [if_pos inserted,if_pos inserted,ih (before ++ [c]) 0 fits]
      · rw [if_neg inserted,if_neg inserted,ih (before ++ [c]) _ (by simp; omega),List.append_assoc]
        rfl
    · have full : dst.length = cap := Nat.le_antisymm fits (Nat.le_of_not_lt room)
      rw [if_neg room,List.take_left' full]
      rfl

theorem rbspUnescape_eq {src : Text} (short : src.length ≤ auPrefixMax) : rbspUnescape src = .ok (unescapeFrom 0 src) := by
  have unescaped := @rbspUnescapeFrom_take [] src auPrefixMax [] 0 (Nat.zero_le _)
  rw [List.nil_append,List.nil_append,List.take_of_length_le (Nat.le_trans (unescapeFrom_length src 0) short)] at unescaped
  exact unescaped

theorem scanNal_sei {st : State} {header body : Text} (isSei : SeiHeader st.codec header) (nonempty : body ≠ [])
    (short : body.length ≤ auPrefixMax) {found : Option ClockTimestamp} (finds : SeiFinds st (unescapeFrom 0 body) 0 found) :
    scanNal (header ++ body) st = .ok (st,found) := by
  have positive : 0 < body.length := List.length_pos_iff.mpr nonempty
  have messages : scanSeiMessages (unescapeFrom 0 body) st = .ok found := finds _ (by omega)
  unfold SeiHeader at isSei
  unfold scanNal
  by_cases hevc : st.codec = .hevc
  · rw [if_pos hevc] at isSei
    obtain ⟨b0,b1,rfl,sei,_⟩ := isSei
    have cut : window ([b0,b1] ++ body) 2 (([b0,b1] ++ body).length - 2) = .ok body :=
      window_rest [b0,b1] body
    have isSei : ¬ (b0.toNat / 2 % 64 ≠ 39 ∧ b0.toNat / 2 % 64 ≠ 40) := by omega
    rw [if_pos hevc,if_neg (by simp; omega),cut]
    show (if b0.toNat / 2 % 64 ≠ 39 ∧ b0.toNat / 2 % 64 ≠ 40 then _ else _) = _
    rw [if_neg isSei]
    show (rbspUnescape body >>= _) = _
    rw [rbspUnescape_eq short]
    show (scanSeiMessages (unescapeFrom 0 body) st >>= _) = _
    rw [messages]
    rfl
  · rw [if_neg hevc] at isSei
    obtain ⟨b0,rfl,sei⟩ := isSei
    have cut : window ([b0] ++ body) 1 (([b0] ++ body).length - 1) = .ok body :=
      window_rest [b0] body
    rw [if_neg hevc,if_neg (by simp; omega),cut]
    show (if b0.toNat % 32 = 7 then _ else if b0.toNat % 32 ≠ 6 then _ else _) = _
    rw [if_neg (by omega),if_neg (by omega)]
    show (rbspUnescape body >>= _) = _
    rw [rbspUnescape_eq short]
    show (scanSeiMessages (unescapeFrom 0 body) st >>= _) = _
    rw [messages]
    rfl

theorem untimed_parses {st : State} (ready : st.Ready) {m : SeiMessage} (untimed : m.Untimed st.codec st.sps) :
    m.payloadType ≠ want st.codec ∨ parsePayload st m.payload = .ok none :=
  untimed.imp_right fun blank => parsePayload_blank ready blank

theorem scanNal_timed {st : State} (ready : st.Ready) {header payload : Text} {messages : List SeiMessage} {tc : ClockTimestamp}
    (isSei : SeiHeader st.codec header) (others : ∀ m ∈ messages, m.Untimed st.codec st.sps) (sane : isPlausible tc = true)
    (holds : Holds st.codec st.sps payload tc) (more : Text)
    (short : (escape (messages.flatMap SeiMessage.bytes ++ SeiMessage.bytes ⟨want st.codec,payload⟩) ++ more).length ≤ auPrefixMax) :
    scanNal (header ++ (escape (messages.flatMap SeiMessage.bytes ++ SeiMessage.bytes ⟨want st.codec,payload⟩) ++ more)) st =
      .ok (st,some tc) := by
  obtain ⟨zeros,unescaped⟩ :=
    unescapeFrom_escapeFrom (messages.flatMap SeiMessage.bytes ++ SeiMessage.bytes ⟨want st.codec,payload⟩) 0 more
  refine scanNal_sei isSei ?_ short ?_
  · intro empty
    unfold escape at empty
    rw [empty] at unescaped
    have long := congrArg List.length unescaped
    simp [unescapeFrom,SeiMessage.bytes,byteCode] at long
  · unfold escape
    rw [unescaped,List.append_assoc]
    refine SeiFinds.messages (fun m among => untimed_parses ready (others m among)) [] _ ?_
    exact SeiFinds.timed (messages.flatMap SeiMessage.bytes) _ (parsePayload_holds ready sane holds)

theorem scanNal_other {st : State} {nal : Text} (nonempty : nal ≠ []) (other : OtherNal st.codec nal) (more : Text) :
    scanNal (nal ++ more) st = .ok (st,none) := by
  obtain ⟨b0,rest,rfl⟩ := List.exists_cons_of_ne_nil nonempty
  have other := other b0 rfl
  unfold scanNal
  by_cases hevc : st.codec = .hevc
  · rw [if_pos hevc] at other
    rw [if_pos hevc]
    split
    · rfl
    · show (if b0.toNat / 2 % 64 ≠ 39 ∧ b0.toNat / 2 % 64 ≠ 40 then _ else _) = _
      rw [if_pos other]
      rfl
  · rw [if_neg hevc] at other
    rw [if_neg hevc]
    split
    · rfl
    · show (if b0.toNat % 32 = 7 then _ else if b0.toNat % 32 ≠ 6 then _ else _) = _
      rw [if_neg other.2,if_pos other.1]
      rfl

theorem scanNal_untimed {st : State} (ready : st.Ready) {nal : Text} (nonempty : nal ≠ [])
    (untimed : OtherNal st.codec nal ∨ UntimedSei st.codec st.sps nal) (zeros : Nat)
    (short : (nal ++ List.replicate zeros 0).length ≤ auPrefixMax) :
    scanNal (nal ++ List.replicate zeros 0) st = .ok (st,none) := by
  obtain other | ⟨header,messages,isSei,others,rfl⟩ := untimed
  · exact scanNal_other nonempty other _
  · obtain ⟨after,unescaped⟩ :=
      unescapeFrom_escapeFrom (messages.flatMap SeiMessage.bytes ++ [0x80]) 0 (List.replicate zeros 0)
    rw [unescapeFrom_zeros] at unescaped
    rw [List.append_assoc]
    rw [List.append_assoc,List.length_append] at short
    refine scanNal_sei isSei ?_ (by omega) ?_
    · intro empty
      unfold escape at empty
      rw [empty] at unescaped
      have long := congrArg List.length unescaped
      simp [unescapeFrom] at long
    · unfold escape
      rw [unescaped,List.append_assoc]
      refine SeiFinds.messages (fun m among => untimed_parses ready (others m among)) [] _ ?_
      exact SeiFinds.trailing st (messages.flatMap SeiMessage.bytes) zeros

end Nal

end SrtLiveServer.Timecode
