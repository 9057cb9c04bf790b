import SrtLiveServer.TimecodeSei

/-! The walk over the NAL units of a buffered access unit: it passes those without a
timecode and ends with the one of the first that has one. -/
namespace SrtLiveServer.Timecode
open Bytes Checked Bits AnnexB

section StartCodes

theorem isStartCode_eq (before rest : Text) :
    isStartCode (before ++ rest) before.length = .ok ((codeLength rest).map (before.length + ·)) := by
  unfold isStartCode
  match rest with
  | [] => simp [codeLength]; rfl
  | [a] => simp [codeLength]; rfl
  | [a,b] => simp [codeLength]; rfl
  | a::b::c::rest =>
    have first := readAt_append before (a::b::c::rest) 0
    have second := readAt_append before (a::b::c::rest) 1
    have third := readAt_append before (a::b::c::rest) 2
    have fourth := readAt_append before (a::b::c::rest) 3
    rw [Nat.add_zero] at first
    rw [if_neg (by simp),first,second,third,fourth]
    show (if a ≠ 0 then _ else if b ≠ 0 then _ else if c = 1 then _ else _) = _
    by_cases zero : a = 0
    · by_cases zero' : b = 0
      · rw [if_neg (by simp [zero]),if_neg (by simp [zero']),zero,zero']
        by_cases one : c = 1
        · rw [if_pos one,one]
          simp [codeLength]
          rfl
        · rw [if_neg one]
          cases rest with
          | nil =>
            rw [if_neg (by simp)]
            simp [codeLength,Ne.symm one]
            rfl
          | cons d rest =>
            by_cases third : c = 0
            · rw [if_pos (by simp [third]),third]
              show (if d = 1 then _ else _) = _
              by_cases last : d = 1
              · rw [if_pos last,last]
                simp [codeLength]
                rfl
              · rw [if_neg last]
                simp [codeLength,Ne.symm last]
                rfl
            · rw [if_neg (fun both => third both.2)]
              simp [codeLength,Ne.symm one,Ne.symm third]
              rfl
      · rw [if_neg (by simp [zero]),if_pos zero']
        simp [codeLength,Ne.symm zero']
        rfl
    · rw [if_pos zero]
      simp [codeLength,Ne.symm zero]
      rfl

/-- Where the bytes of a unit end, counted without the loop's bound. -/
def NalEnds (b : Text) (stop last : Nat) : Prop := ∀ bound, b.length < bound + stop → nalEnd b bound stop = .ok last

theorem NalEnds.code (before rest : Text) {length : Nat} (code : codeLength rest = some length) :
    NalEnds (before ++ rest) before.length before.length := by
  have three : 3 ≤ rest.length := by
    by_contra short
    match rest with
    | [] => simp [codeLength] at code
    | [a] => simp [codeLength] at code
    | [a,b] => simp [codeLength] at code
    | a::b::c::rest => simp at short
  intro bound enough
  cases bound with
  | zero => simp at enough
  | succ bound =>
    rw [nalEnd,if_pos (by simp; omega),isStartCode_eq,code]
    rfl

theorem NalEnds.byte (before : Text) (c : UInt8) (rest : Text) {last : Nat} (none : codeLength (c::rest) = none)
    (later : NalEnds (before ++ c::rest) (before ++ [c]).length last) : NalEnds (before ++ c::rest) before.length last := by
  intro bound enough
  rw [List.length_append,List.length_singleton] at later
  cases bound with
  | zero => simp at enough
  | succ bound =>
    have next := later (bound + 1) (by omega)
    rw [nalEnd]
    split
    · rw [isStartCode_eq,none]
      exact later bound (by omega)
    · rw [nalEnd,if_neg (by omega)] at next
      exact next

theorem NalEnds.quiet (before nal after : Text) (quiet : Quiet nal after) {last : Nat}
    (later : NalEnds (before ++ (nal ++ after)) (before ++ nal).length last) :
    NalEnds (before ++ (nal ++ after)) before.length last := by
  induction nal generalizing before with
  | nil =>
    rw [List.append_nil] at later
    exact later
  | cons c nal ih =>
    have rest := ih (before ++ [c]) quiet.tail
    simp only [List.append_assoc,List.cons_append,List.nil_append] at rest later ⊢
    exact NalEnds.byte before c (nal ++ after) (quiet [] (c::nal) rfl (by simp)) (rest later)

theorem NalEnds.startCode (before : Text) (zeros : Nat) (after : Text) :
    NalEnds (before ++ (startCode zeros ++ after)) before.length (before.length + (zeros - 1)) := by
  have stop : (before ++ List.replicate (zeros - 1) 0).length = before.length + (zeros - 1) := by simp
  have code := codeLength_startCode (Nat.min_le_right zeros 1) after
  have ends := NalEnds.code (before ++ List.replicate (zeros - 1) 0) _ code
  rw [stop,List.append_assoc] at ends
  rw [startCode_split,List.append_assoc]
  refine NalEnds.quiet before _ _ (zeros_quiet zeros after) ?_
  rw [stop]
  exact ends

/-- A unit that is not followed by a start code goes on with what follows. -/
theorem nalEnd_beyond (before nal after : Text) (quiet : Quiet nal after) (bound : Nat)
    (enough : (before ++ (nal ++ after)).length < bound + before.length) :
    Yields (nalEnd (before ++ (nal ++ after)) bound before.length) fun last =>
      (before ++ nal).length ≤ last ∧ last ≤ (before ++ (nal ++ after)).length := by
  induction nal generalizing before bound with
  | nil =>
    rw [List.append_nil]
    exact nalEnd_yields _ bound before.length (by simp) enough
  | cons c nal ih =>
    cases bound with
    | zero => simp at enough
    | succ bound =>
      have here : codeLength (c::nal ++ after) = none := quiet [] (c::nal) rfl (by simp)
      have later := ih (before ++ [c]) quiet.tail bound (by simp at enough ⊢; omega)
      simp only [List.append_assoc,List.cons_append,List.nil_append] at later
      rw [nalEnd]
      refine Yields.ite (fun _ => ?_) fun _ => Yields.pure ⟨by simp,Nat.le_refl _⟩
      rw [isStartCode_eq,here]
      have moved : (before ++ [c]).length = before.length + 1 := by simp
      rw [moved] at later
      exact later

end StartCodes

section Walk

/-- The walk from `i` on ends as `post` says, counted without the loop's bound. -/
def Walks (b : Text) (i : Nat) (st : State) (found : Option ClockTimestamp) (post : State × Option ClockTimestamp → Prop) :
    Prop := ∀ bound, b.length < bound + i → Yields (scanAuFrom b bound i st found) post

variable {st : State} {found : Option ClockTimestamp} {post : State × Option ClockTimestamp → Prop}

theorem Walks.quiet (before bytes after : Text) (quiet : Quiet bytes after) (long : 3 ≤ after.length)
    (later : Walks (before ++ (bytes ++ after)) (before ++ bytes).length st found post) :
    Walks (before ++ (bytes ++ after)) before.length st found post := by
  induction bytes generalizing before with
  | nil =>
    rw [List.append_nil] at later
    exact later
  | cons c bytes ih =>
    have rest := ih (before ++ [c]) quiet.tail
    simp only [List.append_assoc,List.cons_append,List.nil_append] at rest later ⊢
    have none : codeLength (c::(bytes ++ after)) = none := quiet [] (c::bytes) rfl (by simp)
    intro bound enough
    cases bound with
    | zero => simp at enough
    | succ bound =>
      rw [scanAuFrom]
      refine Yields.ite (fun _ => ?_) fun short => absurd (by simp; omega) short
      rw [isStartCode_eq,none]
      have onward := rest later bound (by simp at enough ⊢; omega)
      rw [List.length_append,List.length_singleton] at onward
      exact onward

theorem Walks.zeros (before : Text) (zeros : Nat) (after : Text)
    (later : Walks (before ++ (startCode zeros ++ after)) (before.length + (zeros - 1)) st found post) :
    Walks (before ++ (startCode zeros ++ after)) before.length st found post := by
  have stop : (before ++ List.replicate (zeros - 1) 0).length = before.length + (zeros - 1) := by simp
  rw [startCode_split,List.append_assoc] at later ⊢
  refine Walks.quiet before _ _ (zeros_quiet zeros after) (by simp [startCode_length]; omega) ?_
  rw [stop]
  exact later

theorem isStartCode_startCode (before : Text) (zeros : Nat) (after : Text) :
    isStartCode (before ++ (startCode zeros ++ after)) (before.length + (zeros - 1)) =
      .ok (some (before ++ startCode zeros).length) := by
  have here : before.length + (zeros - 1) = (before ++ List.replicate (zeros - 1) 0).length := by simp
  have start : (before ++ List.replicate (zeros - 1) 0).length + (min zeros 1 + 3) = (before ++ startCode zeros).length := by
    simp [startCode_length]
    omega
  have code := codeLength_startCode (Nat.min_le_right zeros 1) after
  rw [here,← start,startCode_split,List.append_assoc,← List.append_assoc before,isStartCode_eq,code]
  rfl

theorem Walks.unit {b before after part : Text} {zeros stop : Nat} (whole : b = before ++ (startCode zeros ++ after))
    (ended : nalEnd b (b.length + 1) (before ++ startCode zeros).length = .ok stop)
    (onward : (before ++ startCode zeros).length < stop)
    (cut : window b (before ++ startCode zeros).length (stop - (before ++ startCode zeros).length) = .ok part)
    {st' : State} {candidate : Option ClockTimestamp} (scanned : scanNal part st = .ok (st',candidate))
    (later : Walks b stop st' (found.or candidate) post) : Walks b (before.length + (zeros - 1)) st found post := by
  have start : (before ++ startCode zeros).length = before.length + (zeros + 3) := by
    rw [List.length_append,startCode_length]
  have total : b.length = before.length + (zeros + 3) + after.length := by
    rw [whole,List.length_append,List.length_append,startCode_length]
    omega
  intro bound enough
  cases bound with
  | zero => omega
  | succ bound =>
    rw [scanAuFrom,if_pos (by omega)]
    have code := isStartCode_startCode before zeros after
    rw [← whole] at code
    rw [code]
    show Yields (nalEnd b (b.length + 1) (before ++ startCode zeros).length >>= _) _
    rw [ended]
    show Yields (if (before ++ startCode zeros).length < stop then _ else _) _
    rw [if_pos onward,cut]
    show Yields (scanNal part st >>= _) _
    rw [scanned]
    exact later bound (by omega)

theorem IsNal.nonempty {nal : Text} (isNal : IsNal nal) : nal ≠ [] := by
  rintro rfl
  obtain ⟨last,ends,_⟩ := isNal.ended
  cases ends

theorem Walks.passed {b before nal after : Text} {zeros next : Nat}
    (whole : b = before ++ (startCode zeros ++ (nal ++ (startCode next ++ after)))) (isNal : IsNal nal) {st' : State}
    (scanned : (nal ++ List.replicate (next - 1) (0 : UInt8)).length ≤ b.length →
      scanNal (nal ++ List.replicate (next - 1) 0) st = .ok (st',none))
    (later : Walks b ((before ++ (startCode zeros ++ nal)).length + (next - 1)) st' found post) :
    Walks b (before.length + (zeros - 1)) st found post := by
  obtain ⟨last,ends,nonzero⟩ := isNal.ended
  have positive : 0 < nal.length := List.length_pos_iff.mpr isNal.nonempty
  have regrouped : b = (before ++ startCode zeros) ++ (nal ++ (startCode next ++ after)) := by
    rw [whole]
    simp only [List.append_assoc]
  have regrouped' : b = (before ++ startCode zeros) ++
      ((nal ++ List.replicate (next - 1) 0) ++ (startCode (min next 1) ++ after)) := by
    rw [regrouped,startCode_split next]
    simp only [List.append_assoc]
  have quiet : Quiet nal (startCode next ++ after) := isNal.clean.quiet (.inr (by rw [ends]; simpa using nonzero))
  have ended : NalEnds b (before ++ startCode zeros).length ((before ++ (startCode zeros ++ nal)).length + (next - 1)) := by
    rw [regrouped]
    refine NalEnds.quiet _ _ _ quiet ?_
    have stops := NalEnds.startCode (before ++ startCode zeros ++ nal) next after
    simp only [List.append_assoc] at stops ⊢
    exact stops
  have size : (before ++ (startCode zeros ++ nal)).length + (next - 1) - (before ++ startCode zeros).length =
      (nal ++ List.replicate (next - 1) (0 : UInt8)).length := by
    simp only [List.length_append,List.length_replicate]
    omega
  have cut : window b (before ++ startCode zeros).length
      ((before ++ (startCode zeros ++ nal)).length + (next - 1) - (before ++ startCode zeros).length) =
        .ok (nal ++ List.replicate (next - 1) 0) := by
    rw [size,regrouped']
    exact window_append _ _ _
  have fits : (nal ++ List.replicate (next - 1) (0 : UInt8)).length ≤ b.length := by
    rw [regrouped']
    simp only [List.length_append]
    omega
  refine Walks.unit whole (ended _ (by omega)) ?_ cut (scanned fits) ?_
  · simp only [List.length_append]
    omega
  · rw [Option.or_none]
    exact later

/-- Whatever zeros the next start code begins with, no timecode is found in the unit. -/
def State.Passes (st : State) (nal : Text) : Prop :=
  ∀ zeros, (nal ++ List.replicate zeros (0 : UInt8)).length ≤ auPrefixMax → scanNal (nal ++ List.replicate zeros 0) st = .ok (st,none)

def firstZeros (units : List (Nat × Text)) (zeros : Nat) : Nat :=
  match units with
  | [] => zeros
  | unit::_ => unit.1

theorem byteStream_startCode (units : List (Nat × Text)) (zeros : Nat) (tail : Text) :
    ∃ after, byteStream units ++ (startCode zeros ++ tail) = startCode (firstZeros units zeros) ++ after := by
  cases units with
  | nil => exact ⟨tail,rfl⟩
  | cons unit units =>
    refine ⟨unit.2 ++ (byteStream units ++ (startCode zeros ++ tail)),?_⟩
    simp only [byteStream,List.flatMap_cons,List.append_assoc]
    rfl

theorem Walks.units {b tail : Text} {zeros : Nat} (short : b.length ≤ auPrefixMax)
    (units : List (Nat × Text)) (before : Text) (whole : b = before ++ (byteStream units ++ (startCode zeros ++ tail)))
    (isNal : ∀ unit ∈ units, IsNal unit.2) (passes : ∀ unit ∈ units, st.Passes unit.2)
    (later : Walks b ((before ++ byteStream units).length + (zeros - 1)) st found post) :
    Walks b (before.length + (firstZeros units zeros - 1)) st found post := by
  induction units generalizing before with
  | nil =>
    have none : before ++ byteStream [] = before := List.append_nil before
    rw [none] at later
    exact later
  | cons unit units ih =>
    obtain ⟨after,next⟩ := byteStream_startCode units zeros tail
    have split : byteStream (unit::units) = startCode unit.1 ++ (unit.2 ++ byteStream units) := by
      simp only [byteStream,List.flatMap_cons,List.append_assoc]
    have here : b = before ++ (startCode unit.1 ++ (unit.2 ++ (startCode (firstZeros units zeros) ++ after))) := by
      rw [whole,split,← next]
      simp only [List.append_assoc]
    refine Walks.passed here (isNal unit (by simp)) (fun fits => passes unit (by simp) _ (Nat.le_trans fits short)) ?_
    refine ih (before ++ (startCode unit.1 ++ unit.2)) ?_ (fun u among => isNal u (by simp [among]))
      (fun u among => passes u (by simp [among])) ?_
    · rw [whole,split]
      simp only [List.append_assoc]
    · rw [split] at later
      simp only [List.append_assoc] at later ⊢
      exact later

theorem Walks.timed (ready : st.Ready) {b before header payload seen after : Text} {zeros : Nat} {messages : List SeiMessage}
    {tc : ClockTimestamp} (sane : isPlausible tc = true) (isSei : SeiHeader st.codec header)
    (others : ∀ m ∈ messages, m.Untimed st.codec st.sps) (holds : Holds st.codec st.sps payload tc)
    (whole : b = before ++ (startCode zeros ++ (header ++ (escape (messages.flatMap SeiMessage.bytes ++
      SeiMessage.bytes ⟨want st.codec,payload⟩) ++ seen) ++ after)))
    (short : b.length ≤ auPrefixMax)
    (quiet : Quiet (header ++ (escape (messages.flatMap SeiMessage.bytes ++
      SeiMessage.bytes ⟨want st.codec,payload⟩) ++ seen)) after) :
    Walks b (before.length + (zeros - 1)) st none fun result => st.Walked result ∧ result.2 = some tc := by
  generalize timed : escape (messages.flatMap SeiMessage.bytes ++ SeiMessage.bytes ⟨want st.codec,payload⟩) = body at whole quiet
  have regrouped : b = (before ++ startCode zeros) ++ ((header ++ (body ++ seen)) ++ after) := by
    rw [whole]
    simp only [List.append_assoc]
  have total : b.length = (before ++ startCode zeros).length + (header.length + (body.length + seen.length)) + after.length := by
    rw [regrouped]
    simp only [List.length_append]
    omega
  have positive : 0 < header.length := by
    unfold SeiHeader at isSei
    split at isSei
    · obtain ⟨b0,b1,rfl,_⟩ := isSei
      exact Nat.succ_pos _
    · obtain ⟨b0,rfl,_⟩ := isSei
      exact Nat.succ_pos _
  obtain ⟨stop,ended,low,high⟩ := nalEnd_beyond (before ++ startCode zeros) (header ++ (body ++ seen)) after quiet (b.length + 1)
    (by rw [← regrouped]; omega)
  rw [← regrouped] at ended high
  have beyond : (before ++ startCode zeros).length + (header.length + (body.length + seen.length)) ≤ stop := by
    simp only [List.length_append] at low ⊢
    omega
  obtain ⟨extra,reached⟩ := Nat.exists_eq_add_of_le beyond
  have cut : window b (before ++ startCode zeros).length (stop - (before ++ startCode zeros).length) =
      .ok (header ++ (body ++ (seen ++ after.take extra))) := by
    have found := window_append (before ++ startCode zeros) (header ++ (body ++ (seen ++ after.take extra))) (after.drop extra)
    have same : (header ++ (body ++ (seen ++ after.take extra))) ++ after.drop extra = (header ++ (body ++ seen)) ++ after := by
      simp only [List.append_assoc,List.take_append_drop]
    have size : (header ++ (body ++ (seen ++ after.take extra))).length = stop - (before ++ startCode zeros).length := by
      simp only [List.length_append,List.length_take]
      simp only [List.length_append] at total reached high
      omega
    rw [same,← regrouped,size] at found
    exact found
  have scanned : scanNal (header ++ (body ++ (seen ++ after.take extra))) st = .ok (st,some tc) := by
    rw [← timed]
    refine scanNal_timed ready isSei others sane holds (seen ++ after.take extra) ?_
    rw [timed]
    simp only [List.length_append,List.length_take]
    omega
  refine Walks.unit whole ended (by omega) cut scanned ?_
  intro bound enough
  refine (scanAuFrom_yields b bound stop st (some tc) high enough ?_).imp fun result ⟨walked,kept⟩ => ⟨walked,kept tc rfl⟩
  intro tc' same
  cases same
  exact sane

end Walk

section Buffer

theorem seiHeader_clean {codec : Codec} {header body : Text} (isSei : SeiHeader codec header) (clean : Clean body) :
    Clean (header ++ body) := by
  unfold SeiHeader at isSei
  split at isSei
  · obtain ⟨b0,b1,rfl,sei,nonzero⟩ := isSei
    have first : b0 ≠ 0 := by
      rintro rfl
      simp at sei
    exact (clean.cons_of_ne nonzero).cons_of_ne first
  · obtain ⟨b0,rfl,sei⟩ := isSei
    have first : b0 ≠ 0 := by
      rintro rfl
      simp at sei
    exact clean.cons_of_ne first

theorem buffer_split {codec : Codec} {sps : Sps} {tc : ClockTimestamp} (unit : TimedUnit codec sps tc) {limit : Nat}
    (inside : (byteStream unit.units ++ startCode unit.zeros ++ unit.header ++ escape unit.timed).length ≤ limit) :
    ∃ seen after, unit.bytes.take limit =
        byteStream unit.units ++ (startCode unit.zeros ++ (unit.header ++ (escape unit.timed ++ seen) ++ after)) ∧
      Quiet (unit.header ++ (escape unit.timed ++ seen)) after := by
  obtain ⟨zeros,split⟩ := escapeFrom_append unit.timed unit.rest 0
  have nal := seiHeader_clean unit.isSei (escape_clean (unit.timed ++ unit.rest))
  obtain ⟨last,ends,nonzero⟩ := unit.ended
  have lastByte : (unit.header ++ escape (unit.timed ++ unit.rest)).getLast? = some last := by
    have restEnds : (unit.timed ++ unit.rest).getLast? = some last := by
      rw [List.getLast?_append,ends]
      rfl
    rw [List.getLast?_append,escape,escapeFrom_getLast?,restEnds]
    rfl
  have whole : unit.bytes = byteStream unit.units ++ startCode unit.zeros ++ unit.header ++ escape unit.timed ++
      (escapeFrom zeros unit.rest ++ unit.after) := by
    rw [TimedUnit.bytes,escape,split]
    simp only [List.append_assoc]
    rfl
  generalize fitting : limit - (byteStream unit.units ++ startCode unit.zeros ++ unit.header ++ escape unit.timed).length = room
  have cut : unit.bytes.take limit = byteStream unit.units ++ startCode unit.zeros ++ unit.header ++ escape unit.timed ++
      ((escapeFrom zeros unit.rest).take room ++ unit.after.take (room - (escapeFrom zeros unit.rest).length)) := by
    rw [whole,List.take_append,List.take_of_length_le inside,List.take_append,fitting]
  refine ⟨(escapeFrom zeros unit.rest).take room,unit.after.take (room - (escapeFrom zeros unit.rest).length),?_,?_⟩
  · rw [cut]
    simp only [List.append_assoc]
  · have regrouped : unit.header ++ escape (unit.timed ++ unit.rest) =
        (unit.header ++ (escape unit.timed ++ (escapeFrom zeros unit.rest).take room)) ++ (escapeFrom zeros unit.rest).drop room := by
      rw [escape,split]
      simp only [List.append_assoc,List.take_append_drop]
      rfl
    rw [regrouped] at nal
    refine nal.of_append.1.quiet ?_
    by_cases cutShort : room < (escapeFrom zeros unit.rest).length
    · left
      have none : room - (escapeFrom zeros unit.rest).length = 0 := by omega
      rw [none,List.take_zero]
    · right
      have rest : (escapeFrom zeros unit.rest).drop room = [] := List.drop_of_length_le (by omega)
      rw [rest,List.append_nil] at regrouped
      rw [← regrouped,lastByte]
      simpa using nonzero

theorem scanAuPrefix_timed {st : State} (ready : st.Ready) {tc : ClockTimestamp} (sane : isPlausible tc = true)
    (unit : TimedUnit st.codec st.sps tc) (buffered : st.au = unit.bytes.take auPrefixMax) :
    Yields (scanAuPrefix st) fun result => st.Walked result ∧ result.2 = some tc := by
  obtain ⟨seen,after,split,quiet⟩ := buffer_split unit unit.inside
  have short : st.au.length ≤ auPrefixMax := by
    rw [buffered]
    exact List.length_take_le _ _
  have whole : st.au = byteStream unit.units ++ (startCode unit.zeros ++
      (unit.header ++ (escape unit.timed ++ seen) ++ after)) := buffered.trans split
  have timed := Walks.timed ready sane unit.isSei unit.others unit.holds whole short quiet
  have passes : ∀ u ∈ unit.units, st.Passes u.2 := fun u among zeros fits =>
    scanNal_untimed ready (unit.isNal u among).nonempty (unit.untimed u among) zeros fits
  have units := Walks.units short unit.units [] whole unit.isNal passes timed
  obtain ⟨rest,first⟩ := byteStream_startCode unit.units unit.zeros (unit.header ++ (escape unit.timed ++ seen) ++ after)
  have leading : st.au = [] ++ (startCode (firstZeros unit.units unit.zeros) ++ rest) := whole.trans first
  unfold scanAuPrefix
  rw [leading] at units ⊢
  exact Walks.zeros [] _ rest units _ (by simp)

end Buffer

end SrtLiveServer.Timecode
