import SrtLiveServer.TimecodeRoundTrip

/-! The timecode scanner does not see how its packets are divided into calls, nor the
packets between them that are not its own. -/
namespace SrtLiveServer.Timecode
open Bytes Checked

section Ends

theorem auFlush_ends (st : State) : Yields (auFlush st) fun _ => True := by
  unfold auFlush
  refine Yields.ite (fun _ => Yields.pure trivial) fun _ => ?_
  have walk := scanAuFrom_yields st.au (st.au.length + 1) 0 st none (Nat.zero_le _) (by omega) Plausible.none
  refine walk.bind fun ⟨st',found⟩ _ => ?_
  cases found with
  | none => exact Yields.pure trivial
  | some tc => exact Yields.pure trivial

theorem auAppend_ends (st : State) (data : Text) : Yields (auAppend st data) fun _ => True := by
  have room : (data.take (auPrefixMax - st.au.length)).length ≤ auPrefixMax - st.au.length := List.length_take_le _ _
  unfold auAppend
  refine Yields.ite (fun _ => Yields.pure trivial) fun some => ?_
  exact Yields.ite (fun _ => Yields.pure trivial) fun full => absurd (by omega) full

theorem flushFull_ends (st : State) : Yields (flushFull st) fun _ => True := by
  unfold flushFull
  exact Yields.ite (fun _ => auFlush_ends st) fun _ => Yields.pure trivial

theorem pesHeader_ends (payload : Text) (st : State) : Yields (pesHeader payload st) fun _ => True := by
  obtain same | ⟨pts,part,_,opened⟩ := pesHeader_cases payload st
  · exact ⟨st,same,trivial⟩
  · rw [opened]
    exact auAppend_ends _ part

theorem feedVideoPacket_ends (payload : Text) (pusi : Bool) (st : State) :
    Yields (feedVideoPacket payload pusi st) fun _ => True := by
  unfold feedVideoPacket
  refine Yields.ite (fun _ => ?_) fun _ => Yields.ite (fun _ => ?_) fun _ => flushFull_ends st
  · refine (auFlush_ends st).bind fun ⟨flushed,first⟩ _ => ?_
    refine (pesHeader_ends payload _).bind fun opened _ => ?_
    exact (flushFull_ends opened).bind fun ⟨st',second⟩ _ => Yields.pure trivial
  · exact (auAppend_ends st payload).bind fun st' _ => flushFull_ends st'

theorem route_ends (pid : Nat) (pusi : Bool) (payload : Text) (st : State) :
    Yields (route pid pusi payload st) fun _ => True := by
  obtain ⟨pat,pats⟩ := parsePat_names payload
  obtain ⟨pmt,pmts⟩ := parsePmt_names payload
  unfold route
  rw [pats st,pmts st,ok_bind,ok_bind]
  refine Yields.ite (fun _ => ?_) fun _ => Yields.ite (fun _ => ?_) fun _ => ?_
  · exact Yields.ite (fun _ => Yields.pure trivial) fun _ => Yields.pure trivial
  · exact Yields.ite (fun _ => Yields.pure trivial) fun _ => Yields.pure trivial
  · exact Yields.ite (fun _ => feedVideoPacket_ends payload pusi st) fun _ => Yields.pure trivial

theorem packet_shape {p : Text} (whole : p.length = 188) : ∃ b0 b1 b2 b3 rest, p = b0::b1::b2::b3::rest := by
  match p,whole with
  | b0::b1::b2::b3::rest,_ => exact ⟨b0,b1,b2,b3,rest,rfl⟩

theorem scanPacket_ends {p : Text} (whole : p.length = 188) (st : State) : Yields (scanPacket p st) fun _ => True := by
  obtain ⟨b0,b1,b2,b3,rest,shape⟩ := packet_shape whole
  obtain passed | ⟨_,pusi,payload,routed⟩ := scanPacket_cases shape whole
  · exact ⟨(st,0),passed st,trivial⟩
  · rw [routed st]
    exact route_ends _ pusi payload st

end Ends

section Framing

/-- One scan after the other, with the number of timecodes decoded in all. -/
def inTurn (scan : Text → State → Except Fault (State × Nat)) : List Text → State → Except Fault (State × Nat)
  | [],st => pure (st,0)
  | part::parts,st => do
    let (st,first) ← scan part st
    let (st,later) ← inTurn scan parts st
    pure (st,first + later)

variable {scan : Text → State → Except Fault (State × Nat)}

theorem inTurn_append (first second : List Text) (st : State) :
    inTurn scan (first ++ second) st = (do
      let (st,before) ← inTurn scan first st
      let (st,after) ← inTurn scan second st
      pure (st,before + after)) := by
  induction first generalizing st with
  | nil => simp [inTurn]
  | cons part first ih => simp only [List.cons_append,inTurn,ih,bind_assoc,pure_bind,Nat.add_assoc]

theorem scanFrom_inTurn {data : Text} (short : data.length < wrapAt) (bound k : Nat) (inside : 188 * k ≤ data.length)
    (enough : data.length < bound + 188 * k) (st : State) (decoded : Nat) :
    scanFrom data bound (188 * k : Nat) st decoded = (do
      let (st,count) ← inTurn scanPacket ((packetsOf data).drop k) st
      pure (st,decoded + count)) := by
  induction bound generalizing k st decoded with
  | zero => omega
  | succ bound ih =>
    unfold wrapAt at short
    rw [packetsOf_drop]
    split
    · rename_i more
      rw [scanFrom_packet more (by omega),inTurn]
      simp only [ih (k + 1) more (by omega),bind_assoc,pure_bind,Nat.add_assoc]
    · rename_i past
      rw [scanFrom_end (by omega) (by omega)]
      rfl

theorem tsScanTimecode_inTurn {data : Text} (short : data.length < wrapAt) (st : State) :
    tsScanTimecode data st = inTurn scanPacket (packetsOf data) st := by
  have scanned := scanFrom_inTurn short (data.length + 1) 0 (Nat.zero_le _) (by omega) st 0
  rw [List.drop_zero] at scanned
  show scanFrom data (data.length + 1) (188 * 0 : Nat) st 0 = _
  simp only [scanned,Nat.zero_add]
  exact bind_pure _

theorem inTurn_packets {calls : List Text} (short : ∀ data ∈ calls, data.length < wrapAt) (st : State) :
    inTurn tsScanTimecode calls st = inTurn scanPacket (calls.flatMap packetsOf) st := by
  induction calls generalizing st with
  | nil => rfl
  | cons data calls ih =>
    have later := ih fun data' among => short data' (by simp [among])
    simp only [List.flatMap_cons,inTurn_append,inTurn,tsScanTimecode_inTurn (short data (by simp)),later]

theorem packetsOf_whole {data p : Text} (among : p ∈ packetsOf data) : p.length = 188 := by
  obtain ⟨k,inside,rfl⟩ := List.mem_map.mp among
  have below := List.mem_range.mp inside
  exact packet_whole (by omega)

theorem inTurn_ends {packets : List Text} (whole : ∀ p ∈ packets, p.length = 188) (st : State) :
    Yields (inTurn scanPacket packets st) fun _ => True := by
  induction packets generalizing st with
  | nil => exact Yields.pure trivial
  | cons p packets ih =>
    rw [inTurn]
    refine (scanPacket_ends (whole p (by simp)) st).bind fun ⟨st',first⟩ _ => ?_
    exact (ih (fun p' among => whole p' (by simp [among])) st').bind fun ⟨st'',later⟩ _ => Yields.pure trivial

theorem inTurn_short {calls : List Text} (sized : ∀ data ∈ calls, data.length ≤ 2147483647) {st : State} {result : State × Nat}
    (ran : inTurn tsScanTimecode calls st = .ok result) : ∀ data ∈ calls, data.length < wrapAt := by
  induction calls generalizing st result with
  | nil => exact fun _ among => by cases among
  | cons data calls ih =>
    obtain ⟨⟨st',first⟩,scanned,rest⟩ := bind_eq_ok ran
    obtain ⟨later,ran',_⟩ := bind_eq_ok rest
    intro data' among
    cases among with
    | head =>
      by_contra long
      have faults : tsScanTimecode data st = .error .outOfBounds :=
        @scanFrom_faults (fun _ => True) (fun whole _ => scanPacket_ends whole _) data (Nat.le_of_not_lt long)
          (sized data (by simp)) (data.length + 1) 0 (Nat.zero_le _) (by omega) st trivial 0
      rw [faults] at scanned
      cases scanned
    | tail _ among => exact ih (fun data' among => sized data' (by simp [among])) ran' data' among

end Framing

section Foreign

def pidOf (p : Text) : Nat := (p.getD 1 0).toNat % 32 * 256 + (p.getD 2 0).toNat

/-- No payload is announced, or the adaptation field leaves no room for one. -/
def NoPayload (p : Text) : Prop :=
  (p.getD 3 0).toNat / 16 % 2 = 0 ∨ ((p.getD 3 0).toNat / 16 % 4 = 3 ∧ 183 ≤ (p.getD 4 0).toNat)

/-- A packet that is none of the scanner's in this state. -/
structure Foreign (st : State) (p : Text) : Prop where
  whole : p.length = 188
  foreign : p.getD 0 0 ≠ 0x47 ∨ (p.getD 1 0).toNat / 128 = 1 ∨ pidOf p = 0x1FFF ∨ NoPayload p ∨
    (pidOf p ≠ 0 ∧ (pidOf p : Int) ≠ st.pmtPid ∧ (pidOf p : Int) ≠ st.videoPid)

theorem scanPacket_foreign {st : State} {p : Text} (foreign : Foreign st p) : scanPacket p st = .ok (st,0) := by
  obtain ⟨whole,foreign⟩ := foreign
  obtain ⟨b0,b1,b2,b3,rest,shape⟩ := packet_shape whole
  have more : rest ≠ [] := by
    intro empty
    rw [shape,empty] at whole
    cases whole
  obtain ⟨b4,rest',rfl⟩ := List.exists_cons_of_ne_nil more
  have word : wordAt p 1 32 = .ok (b1.toNat % 32 * 256 + b2.toNat) := by rw [shape]; rfl
  have r0 : readAt p 0 = .ok b0 := by rw [shape]; rfl
  have r1 : readAt p 1 = .ok b1 := by rw [shape]; rfl
  have r3 : readAt p 3 = .ok b3 := by rw [shape]; rfl
  have r4 : readAt p 4 = .ok b4 := by rw [shape]; rfl
  have kinds : b0 ≠ 0x47 ∨ b1.toNat / 128 = 1 ∨ b1.toNat % 32 * 256 + b2.toNat = 0x1FFF ∨
      (b3.toNat / 16 % 2 = 0 ∨ (b3.toNat / 16 % 4 = 3 ∧ 183 ≤ b4.toNat)) ∨
      (b1.toNat % 32 * 256 + b2.toNat ≠ 0 ∧ ((b1.toNat % 32 * 256 + b2.toNat : Nat) : Int) ≠ st.pmtPid ∧
        ((b1.toNat % 32 * 256 + b2.toNat : Nat) : Int) ≠ st.videoPid) := by
    rw [shape] at foreign
    exact foreign
  have passed : (.ok (st,0) : Except Fault (State × Nat)) = pure (st,0) := rfl
  unfold scanPacket
  rw [r0,ok_bind,r1,ok_bind,word,ok_bind,r3,ok_bind,r4,ok_bind,passed]
  dsimp only
  split
  · rfl
  rename_i sync
  split
  · rfl
  rename_i intact
  split
  · rfl
  rename_i notNull
  split
  · rfl
  rename_i announced
  have placed : ∃ pos, (if b3.toNat / 16 % 4 / 2 = 1 then pure (4 + (1 + b4.toNat)) else pure 4 : Except Fault Nat) = .ok pos ∧
      (b3.toNat / 16 % 4 = 3 → pos = 4 + (1 + b4.toNat)) := by
    split
    · exact ⟨_,rfl,fun _ => rfl⟩
    · exact ⟨4,rfl,fun both => by omega⟩
  obtain ⟨pos,placed,behind⟩ := placed
  rw [placed,ok_bind]
  split
  · rfl
  rename_i room
  have inside : pos + (188 - pos) ≤ p.length := by omega
  obtain ⟨payload,cut,_⟩ := window_yields inside
  rw [cut,ok_bind]
  obtain noSync | error | null | noPayload | ⟨notPat,notPmt,notVideo⟩ := kinds
  · exact absurd noSync sync
  · exact absurd error intact
  · exact absurd null notNull
  · obtain none | ⟨both,full⟩ := noPayload
    · omega
    · have filled := behind both
      omega
  · unfold route
    rw [if_neg notPat,if_neg notPmt,if_neg fun video => notVideo video.1]

/-- The packets `padded` are `packets` with foreign ones in between; what is foreign depends
on the state that has been reached. -/
inductive Padded : State → List Text → List Text → Prop
  | nil {st : State} : Padded st [] []
  | foreign {st : State} {p : Text} {packets padded : List Text} (foreign : Foreign st p) (later : Padded st packets padded) :
      Padded st packets (p::padded)
  | packet {st : State} {p : Text} {packets padded : List Text}
      (later : ∀ st' count, scanPacket p st = .ok (st',count) → Padded st' packets padded) :
      Padded st (p::packets) (p::padded)

theorem Padded.refl (st : State) (packets : List Text) : Padded st packets packets := by
  induction packets generalizing st with
  | nil => exact .nil
  | cons p packets ih => exact .packet fun st' _ _ => ih st'

theorem Padded.inTurn_eq {st : State} {packets padded : List Text} (same : Padded st packets padded) :
    inTurn scanPacket padded st = inTurn scanPacket packets st := by
  induction same with
  | nil => rfl
  | @foreign st p packets padded foreign later ih =>
    rw [inTurn,scanPacket_foreign foreign]
    simp only [ok_bind,ih,Nat.zero_add]
    exact bind_pure _
  | @packet st p packets padded later ih =>
    rw [inTurn,inTurn]
    cases scanned : scanPacket p st with
    | error fault => rfl
    | ok result =>
      simp only [ok_bind]
      rw [ih result.1 result.2 scanned]

/-- Two series of calls over the same packets, one of them with foreign packets in between,
end in the same state with the same count exactly if no call is long enough for the index
to overflow. -/
theorem framing_and_foreign_independent_iff (st : State) (calls padded : List Text)
    (sized : ∀ data ∈ calls ++ padded, data.length ≤ 2147483647) (whole : ∀ data ∈ calls ++ padded, 188 ∣ data.length)
    (same : Padded st (packetsOf calls.flatten) (packetsOf padded.flatten)) :
    (∃ final count, inTurn tsScanTimecode calls st = .ok (final,count) ∧ inTurn tsScanTimecode padded st = .ok (final,count)) ↔
      ∀ data ∈ calls ++ padded, data.length < 188 * (2147483647 / 188) := by
  constructor
  · intro ⟨final,count,ran,ran'⟩ data among
    obtain own | other := List.mem_append.mp among
    · exact inTurn_short (fun data' among' => sized data' (List.mem_append_left _ among')) ran data own
    · exact inTurn_short (fun data' among' => sized data' (List.mem_append_right _ among')) ran' data other
  · intro short
    have first : inTurn tsScanTimecode calls st = inTurn scanPacket (packetsOf calls.flatten) st := by
      rw [inTurn_packets fun data among => short data (List.mem_append_left _ among)]
      rw [packetsOf_flatten_calls fun data among => whole data (List.mem_append_left _ among)]
    have second : inTurn tsScanTimecode padded st = inTurn scanPacket (packetsOf padded.flatten) st := by
      rw [inTurn_packets fun data among => short data (List.mem_append_right _ among)]
      rw [packetsOf_flatten_calls fun data among => whole data (List.mem_append_right _ among)]
    obtain ⟨⟨final,count⟩,ran,_⟩ := inTurn_ends (fun p among => packetsOf_whole among) st
    refine ⟨final,count,first.trans ran,?_⟩
    rw [second,same.inTurn_eq]
    exact ran

def nullPacket : Text := 0x47::0x1F::0xFF::0x10::List.replicate 184 0xFF

theorem nullPacket_foreign (st : State) : Foreign st nullPacket := ⟨rfl,.inr (.inr (.inl rfl))⟩

theorem framing_and_foreign_independent_iff_null_packet :
    ∃ final count, inTurn tsScanTimecode [sampleFirst ++ sampleNext] sampleState = .ok (final,count) ∧
      inTurn tsScanTimecode [sampleFirst,nullPacket ++ sampleNext] sampleState = .ok (final,count) := by
  have first : sampleFirst.length = 188 := sampleFirst_isPacket.short.2
  have next : sampleNext.length = 188 := sampleNext_isPacket.short.2
  have null : nullPacket.length = 188 := rfl
  have sizes : ∀ data ∈ [sampleFirst ++ sampleNext] ++ [sampleFirst,nullPacket ++ sampleNext],
      188 ∣ data.length ∧ data.length ≤ 376 := by
    simp [first,next,null]
  have sent : packetsOf [sampleFirst ++ sampleNext].flatten = [sampleFirst,sampleNext] := by
    have shape : [sampleFirst ++ sampleNext].flatten = [sampleFirst,sampleNext].flatten := by simp
    rw [shape]
    exact packetsOf_flatten (by simp [first,next])
  have padded : packetsOf [sampleFirst,nullPacket ++ sampleNext].flatten = [sampleFirst,nullPacket,sampleNext] := by
    have shape : [sampleFirst,nullPacket ++ sampleNext].flatten = [sampleFirst,nullPacket,sampleNext].flatten := by simp
    rw [shape]
    exact packetsOf_flatten (by simp [first,next,null])
  refine (framing_and_foreign_independent_iff sampleState _ _ (fun data among => ?_) (fun data among => (sizes data among).1) ?_).mpr
    fun data among => ?_
  · exact Nat.le_trans (sizes data among).2 (by decide)
  · rw [sent,padded]
    exact .packet fun st _ _ => .foreign (nullPacket_foreign st) (Padded.refl st _)
  · exact Nat.lt_of_le_of_lt (sizes data among).2 (by decide)

/-- As many zero bytes as the largest multiple of 188 an `int` holds, in one call and in two. -/
theorem longest_call_differs :
    ¬ ∀ (st : State) (calls padded : List Text), (∀ data ∈ calls ++ padded, data.length ≤ 2147483647) →
      (∀ data ∈ calls ++ padded, 188 ∣ data.length) → Padded st (packetsOf calls.flatten) (packetsOf padded.flatten) →
      ∃ final count, inTurn tsScanTimecode calls st = .ok (final,count) ∧
        inTurn tsScanTimecode padded st = .ok (final,count) := by
  intro claim
  obtain ⟨one,first,second,oneSize,firstSize,secondSize,cut⟩ : ∃ one first second : Text, one.length = 2147483580 ∧
      first.length = 188 ∧ second.length = 2147483392 ∧ one = first ++ second := by
    refine ⟨_,List.replicate 188 0,List.replicate 2147483392 0,?_,List.length_replicate,List.length_replicate,rfl⟩
    rw [List.length_append,List.length_replicate,List.length_replicate]
  have sizes : ∀ data ∈ [one] ++ [first,second], 188 ∣ data.length ∧ data.length ≤ 2147483580 := by
    intro data among
    simp only [List.singleton_append,List.mem_cons,List.not_mem_nil,or_false] at among
    obtain rfl | rfl | rfl := among
    · omega
    · omega
    · omega
  have same : [first,second].flatten = [one].flatten := by simp [cut]
  obtain ⟨final,count,ran,_⟩ := claim State.init [one] [first,second]
    (fun data among => Nat.le_trans (sizes data among).2 (by decide)) (fun data among => (sizes data among).1)
    (by rw [same]; exact Padded.refl _ _)
  have short := inTurn_short (by simp [oneSize]) ran one (by simp)
  rw [oneSize] at short
  exact absurd short (by decide)

end Foreign

end SrtLiveServer.Timecode
