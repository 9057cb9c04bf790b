import SrtLiveServer.MapData
import SrtLiveServer.Projection
import SrtLiveServer.RingReaders

/-! One stream of `CSLSMapData` apart from the others. What a key stands for, its ring, its
continuity state and its timecode state, is a channel of its own that only the calls with
this key and `clear` act on; the caps alone tie the keys together, and decide only whether
a ring is allocated. -/
namespace SrtLiveServer.MapData
open Bytes RecycleArray Transition Projection

variable {Cc Tc : Type}

structure Channel (Cc Tc : Type) where
  stream : Option Stream
  cc : Option Cc
  tc : Option Tc

/-- `allocate` is an `add` that makes a ring. -/
inductive ChannelOp where
  | allocate (intended : Int) (made grown : Nat) (now : Int)
  | release
  | put (data : List UInt8)
  | get (size : Nat) (reader : ReadID) (aligned : Nat) (now : Int)
  | scan (enabled : Bool)

def Channel.act (scanners : Scanners Cc Tc) (c : Channel Cc Tc) : ChannelOp → Channel Cc Tc
  | .allocate intended made grown now =>
    {c with stream := some ⟨MapData.allocate intended made grown now,0⟩,cc := some (c.cc.getD scanners.initCc)}
  | .release => ⟨none,none,none⟩
  | .put data =>
    match c.stream with
    | none => c
    | some stream =>
      let counted := match c.cc with
        | none => stream.ingestDiscontinuities
        | some cc => if 0 < (scanners.checkContinuity data cc).1 then stream.ingestDiscontinuities + 1 else stream.ingestDiscontinuities
      {stream := some ⟨(RecycleArray.put stream.ring data).1,counted⟩
       cc := c.cc.map fun cc => (scanners.checkContinuity data cc).2
       tc := c.tc.map (scanners.scanTimecode data)}
  | .get size reader aligned now =>
    {c with stream := c.stream.map fun stream => {stream with ring := (RecycleArray.get stream.ring size reader aligned now).1}}
  | .scan enabled => {c with tc := if enabled then some (c.tc.getD scanners.initTc) else none}

def State.channel (s : State Cc Tc) (key : Text) : Channel Cc Tc := ⟨s.mapArray.lookup key,s.mapCcState.lookup key,s.mapTcState.lookup key⟩

/-- `add` with these arguments passes both caps. -/
def State.accepts (s : State Cc Tc) (maxBitrateKbps latencyMs : Int) : Prop :=
  ¬ (0 < s.maxStreams ∧ s.maxStreams ≤ s.streamCount) ∧
    ¬ (0 < s.maxTotalRingBytes ∧ s.maxTotalRingBytes < s.totalRingBytes + intendedSize maxBitrateKbps latencyMs)

instance (s : State Cc Tc) (maxBitrateKbps latencyMs : Int) : Decidable (s.accepts maxBitrateKbps latencyMs) :=
  inferInstanceAs (Decidable (_ ∧ _))

/-- What a call does to the channel of `key`. -/
def State.concern (key : Text) (s : State Cc Tc) : Call → List ChannelOp
  | .add other maxBitrateKbps latencyMs made grown now =>
    if other = key ∧ s.mapArray.lookup key = none ∧ s.accepts maxBitrateKbps latencyMs then
      [.allocate (intendedSize maxBitrateKbps latencyMs) made grown now]
    else []
  | .remove other => if other = key then [.release] else []
  | .clear => [.release]
  | .put other data => if other = key then [.put data] else []
  | .get other size reader aligned now => if other = key then [.get size reader aligned now] else []
  | .setTimecodeScan other enabled => if other = some key then [.scan enabled] else []

section Channels

variable (scanners : Scanners Cc Tc) {s : State Cc Tc} {key : Text}

theorem insert_at {β : Type} (key other : Text) (value : β) (map : AList fun _ : Text => β) :
    (map.insert other value).lookup key = if other = key then some value else map.lookup key := by
  by_cases same : other = key
  · subst same
    rw [if_pos rfl,AList.lookup_insert]
  · rw [if_neg same,AList.lookup_insert_ne (Ne.symm same)]

theorem erase_at {β : Type} (key other : Text) (map : AList fun _ : Text => β) :
    (map.erase other).lookup key = if other = key then none else map.lookup key := by
  by_cases same : other = key
  · subst same
    rw [if_pos rfl,AList.lookup_erase]
  · rw [if_neg same,AList.lookup_erase_ne (Ne.symm same)]

theorem add_channel (other : Text) (maxBitrateKbps latencyMs : Int) (made grown : Nat) (now : Int) :
    (s.add scanners other maxBitrateKbps latencyMs made grown now).2.channel key =
      (s.concern key (.add other maxBitrateKbps latencyMs made grown now)).foldl (Channel.act scanners) (s.channel key) := by
  unfold State.concern State.add
  cases found : s.mapArray.lookup other with
  | some stream =>
    have idle : ¬ (other = key ∧ s.mapArray.lookup key = none ∧ s.accepts maxBitrateKbps latencyMs) := by
      rintro ⟨rfl,absent,_⟩
      rw [found] at absent
      cases absent
    dsimp only
    rw [if_neg idle]
    rfl
  | none =>
    by_cases accepted : s.accepts maxBitrateKbps latencyMs
    · dsimp only
      rw [if_neg accepted.1,if_neg accepted.2]
      by_cases same : other = key
      · subst same
        rw [if_pos ⟨rfl,found,accepted⟩]
        unfold State.channel
        dsimp only [List.foldl_cons,List.foldl_nil,Channel.act]
        rw [insert_at,if_pos rfl]
        cases cc : s.mapCcState.lookup other with
        | some state => simp only [cc,Option.getD_some]
        | none => simp only [insert_at,if_true,Option.getD_none]
      · rw [if_neg fun both => same both.1]
        unfold State.channel
        dsimp only [List.foldl_nil]
        rw [insert_at,if_neg same]
        cases cc : s.mapCcState.lookup other with
        | some state => rfl
        | none => simp only [insert_at,if_neg same]
    · have idle : ¬ (other = key ∧ s.mapArray.lookup key = none ∧ s.accepts maxBitrateKbps latencyMs) := fun all => accepted all.2.2
      dsimp only
      rw [if_neg idle]
      split
      · rfl
      · rename_i streams
        rw [if_pos (not_not.mp fun bytes => accepted ⟨streams,bytes⟩)]
        rfl

theorem remove_channel (other : Text) :
    (s.remove other).2.channel key = (s.concern key (.remove other)).foldl (Channel.act scanners) (s.channel key) := by
  unfold State.concern State.remove
  dsimp only
  by_cases same : other = key
  · subst same
    rw [if_pos (Eq.refl other)]
    dsimp only [List.foldl_cons,List.foldl_nil,Channel.act]
    cases found : s.mapArray.lookup other with
    | some stream => simp only [State.channel,erase_at,if_true]
    | none => simp only [State.channel,erase_at,if_true,found]
  · rw [if_neg same]
    dsimp only [List.foldl_nil]
    cases found : s.mapArray.lookup other with
    | some stream => simp only [State.channel,erase_at,if_neg same]
    | none => simp only [State.channel,erase_at,if_neg same]

theorem put_channel (other : Text) (data : List UInt8) :
    (s.put scanners other data).2.2.channel key = (s.concern key (.put other data)).foldl (Channel.act scanners) (s.channel key) := by
  unfold State.concern State.put
  dsimp only
  by_cases same : other = key
  · subst same
    rw [if_pos (Eq.refl other)]
    dsimp only [List.foldl_cons,List.foldl_nil,Channel.act]
    cases found : s.mapArray.lookup other with
    | none => simp only [State.channel,found]
    | some stream =>
      cases cc : s.mapCcState.lookup other with
      | none => cases tc : s.mapTcState.lookup other <;> simp only [State.channel,found,cc,tc,insert_at,if_true,Option.map_none,Option.map_some]
      | some state =>
        cases tc : s.mapTcState.lookup other <;> simp only [State.channel,found,cc,tc,insert_at,if_true,Option.map_none,Option.map_some]
  · rw [if_neg same]
    dsimp only [List.foldl_nil]
    cases found : s.mapArray.lookup other with
    | none => rfl
    | some stream =>
      cases cc : s.mapCcState.lookup other with
      | none => cases tc : s.mapTcState.lookup other <;> simp only [State.channel,insert_at,if_neg same]
      | some state => cases tc : s.mapTcState.lookup other <;> simp only [State.channel,insert_at,if_neg same]

theorem get_channel (other : Text) (size : Nat) (reader : ReadID) (aligned : Nat) (now : Int) :
    (s.get other size reader aligned now).2.channel key =
      (s.concern key (.get other size reader aligned now)).foldl (Channel.act scanners) (s.channel key) := by
  unfold State.concern State.get
  dsimp only
  by_cases same : other = key
  · subst same
    rw [if_pos (Eq.refl other)]
    dsimp only [List.foldl_cons,List.foldl_nil,Channel.act]
    cases found : s.mapArray.lookup other with
    | none => simp only [State.channel,found,Option.map_none]
    | some stream => simp only [State.channel,found,insert_at,if_true,Option.map_some]
  · rw [if_neg same]
    dsimp only [List.foldl_nil]
    cases found : s.mapArray.lookup other with
    | none => rfl
    | some stream => simp only [State.channel,insert_at,if_neg same]

theorem setTimecodeScan_channel (other : Option Text) (enabled : Bool) :
    (s.setTimecodeScan scanners other enabled).channel key =
      (s.concern key (.setTimecodeScan other enabled)).foldl (Channel.act scanners) (s.channel key) := by
  unfold State.concern State.setTimecodeScan
  cases other with
  | none => rfl
  | some other =>
    dsimp only
    by_cases same : other = key
    · subst same
      rw [if_pos (Eq.refl (some other))]
      dsimp only [List.foldl_cons,List.foldl_nil,Channel.act]
      cases enabled with
      | false => simp [State.channel]
      | true => cases tc : s.mapTcState.lookup other <;> simp [State.channel,tc]
    · rw [if_neg fun both => same (Option.some.inj both)]
      dsimp only [List.foldl_nil]
      cases enabled with
      | false => simp [State.channel,erase_at,same]
      | true => cases tc : s.mapTcState.lookup other <;> simp [State.channel,insert_at,same]

/-- Any call is, for each key, what it does to the channel of that key. -/
def channelView (key : Text) : View (streams scanners) (Channel Cc Tc) ChannelOp where
  view := fun s => s.channel key
  concern := fun s call => s.concern key call
  act := Channel.act scanners
  commutes := by
    intro s call next stepped
    cases call with
    | add other maxBitrateKbps latencyMs made grown now =>
      cases stepped
      exact add_channel scanners other maxBitrateKbps latencyMs made grown now
    | remove other =>
      cases stepped
      exact remove_channel scanners other
    | clear =>
      cases stepped
      rfl
    | put other data =>
      cases stepped
      exact put_channel scanners other data
    | get other size reader aligned now =>
      cases stepped
      exact get_channel scanners other size reader aligned now
    | setTimecodeScan other enabled =>
      cases stepped
      exact setTimecodeScan_channel scanners other enabled

/-- After any calls on any keys, the ring of a key, its discontinuities and its parsers are
those of a channel that has seen the calls of this key only, an `add` where it allocated. -/
theorem channels_are_independent {final : State Cc Tc} {calls : List Call} (ran : (streams scanners).run s calls = some final)
    (key : Text) : final.channel key = ((channelView scanners key).trace s calls).foldl (Channel.act scanners) (s.channel key) :=
  (channelView scanners key).run ran

theorem channels_are_independent_two :
    ∃ final : State Unit Unit,
      (streams unscanned).run (State.start.setCaps 2 0) [.add [1] 0 0 1 2 0,.add [2] 0 0 3 4 0,.remove [2]] = some final ∧
      final.channel [1] = ((channelView unscanned [1]).trace (State.start.setCaps 2 0)
        [.add [1] 0 0 1 2 0,.add [2] 0 0 3 4 0,.remove [2]]).foldl (Channel.act unscanned)
          ((State.start.setCaps 2 0).channel [1]) := by
  obtain ⟨final,ran⟩ : ∃ final, (streams unscanned).run (State.start.setCaps 2 0)
      [.add [1] 0 0 1 2 0,.add [2] 0 0 3 4 0,.remove [2]] = some final := ⟨_,rfl⟩
  exact ⟨final,ran,channels_are_independent unscanned ran [1]⟩

end Channels

end SrtLiveServer.MapData
