import SrtLiveServer.Demultiplex
import SrtLiveServer.TimecodeFraming

/-! `sls_ts_check_continuity`: gaps in the continuity counters of a transport stream. The
table of the tracked PIDs is a family of automata, one for each PID, so what is counted
is a matter of each PID's own packets. -/
namespace SrtLiveServer.ContinuityCounter
open Bytes Checked Demultiplex Timecode

def tsCcMaxPids : Nat := 16

/-- `pid` and `last_cc` of the first `n_pids` slots. -/
structure TsCcState where
  slots : Table Nat Nat
deriving DecidableEq

def TsCcState.nPids (st : TsCcState) : Nat := st.slots.length

def slsInitTsCcState : TsCcState := ⟨[]⟩

def afc (p : Text) : Nat := (p.getD 3 0).toNat / 16 % 4

def HasPayload (p : Text) : Prop := afc p % 2 = 1

instance decidableHasPayload (p : Text) : Decidable (HasPayload p) := inferInstanceAs (Decidable (_ = _))

def cc (p : Text) : Nat := (p.getD 3 0).toNat % 16

def DeclaredDiscontinuity (p : Text) : Prop := afc p / 2 % 2 = 1 ∧ 0 < (p.getD 4 0).toNat ∧ (p.getD 5 0).toNat / 128 % 2 = 1

instance decidableDeclaredDiscontinuity (p : Text) : Decidable (DeclaredDiscontinuity p) :=
  inferInstanceAs (Decidable (_ ∧ _ ∧ _))

/-- The loop body; a packet is 188 bytes long. -/
def checkPacket (p : Text) (st : TsCcState) : TsCcState × Nat :=
  if p.getD 0 0 ≠ 0x47 then (st,0)
  else if pidOf p = 0x1FFF then (st,0)
  else match st.slots.findIdx? fun slot => slot.1 == pidOf p with
    | none => (if st.nPids < tsCcMaxPids then ⟨st.slots ++ [(pidOf p,cc p)]⟩ else st,0)
    | some slot =>
      if HasPayload p then
        let lastCc := (st.slots.getD slot (0,0)).2
        let expected := (lastCc + 1) % 16
        (⟨st.slots.modify slot fun entry => (entry.1,cc p)⟩,
          if cc p ≠ expected ∧ cc p ≠ lastCc ∧ ¬ DeclaredDiscontinuity p then 1 else 0)
      else (st,0)

/-- The index is an `int`. -/
def checkFrom (data : Text) : Nat → Int → TsCcState → Nat → Except Fault (TsCcState × Nat)
  | 0,_,_,_ => throw .endless
  | bound + 1,i,st,breaks =>
    if int32 (i + 188) ≤ data.length then do
      if i < 0 then throw .outOfBounds
      else do
        let p ← window data i.toNat 188
        let (st,count) := checkPacket p st
        checkFrom data bound (int32 (i + 188)) st (breaks + count)
    else pure (st,breaks)

def slsTsCheckContinuity (data : Text) (st : TsCcState) : Except Fault (TsCcState × Nat) :=
  checkFrom data (data.length + 1) 0 st 0

/-- The calls of a stream on one state, with the breaks returned in all. -/
def checkCalls : List Text → TsCcState → Except Fault (TsCcState × Nat)
  | [],st => pure (st,0)
  | data::calls,st => do
    let (st,first) ← slsTsCheckContinuity data st
    let (st,later) ← checkCalls calls st
    pure (st,first + later)

def checkPackets : List Text → TsCcState → TsCcState × Nat
  | [],st => (st,0)
  | p::packets,st =>
    let (st,first) := checkPacket p st
    let (st,later) := checkPackets packets st
    (st,first + later)

/-- The PID that a packet counts for. -/
def countedPid (p : Text) : Option Nat := if p.getD 0 0 = 0x47 ∧ pidOf p ≠ 0x1FFF then some (pidOf p) else none

section Table

theorem lookup_findIdx_none {table : Table Nat Nat} {k : Nat} (found : table.findIdx? (fun slot => slot.1 == k) = none) :
    lookup table k = none := by
  rw [lookup_eq_none]
  intro member
  obtain ⟨entry,among,same⟩ := List.mem_map.mp member
  have other := List.findIdx?_eq_none_iff.mp found entry among
  rw [same] at other
  simp at other

theorem lookup_findIdx {table : Table Nat Nat} {k i : Nat} (found : table.findIdx? (fun slot => slot.1 == k) = some i) :
    lookup table k = some (table.getD i (0,0)).2 ∧
      ∀ s, update table k s = table.modify i fun entry => (entry.1,s) := by
  induction table generalizing i with
  | nil => cases found
  | cons entry rest ih =>
    rw [List.findIdx?_cons] at found
    unfold lookup update
    by_cases same : entry.1 = k
    · rw [if_pos (by simp [same])] at found
      cases Option.some.inj found
      rw [if_pos same]
      refine ⟨rfl,fun s => ?_⟩
      rw [if_pos same]
      rfl
    · rw [if_neg (by simp [same])] at found
      obtain ⟨j,later,rfl⟩ := Option.map_eq_some_iff.mp found
      obtain ⟨state,updated⟩ := ih later
      rw [if_neg same]
      refine ⟨state,fun s => ?_⟩
      rw [if_neg same,updated s]
      rfl

end Table

/-- The automaton of one PID: the last counter seen, and whether a packet breaks the count. -/
def pidAutomaton : Automaton Text Nat where
  start := cc
  next lastCc p :=
    if HasPayload p then (cc p,if cc p ≠ (lastCc + 1) % 16 ∧ cc p ≠ lastCc ∧ ¬ DeclaredDiscontinuity p then 1 else 0)
    else (lastCc,0)

def pidTable : Demux Nat Text Nat := ⟨countedPid,tsCcMaxPids,pidAutomaton⟩

/-- The table of the code is that of the automata. -/
theorem checkPacket_step (p : Text) (st : TsCcState) :
    checkPacket p st = (⟨(pidTable.step st.slots p).1⟩,(pidTable.step st.slots p).2) := by
  have key : pidTable.key p = if p.getD 0 0 = 0x47 ∧ pidOf p ≠ 0x1FFF then some (pidOf p) else none := rfl
  unfold checkPacket
  by_cases sync : p.getD 0 0 ≠ 0x47
  · rw [if_neg fun counted => sync counted.1] at key
    rw [if_pos sync,pidTable.step_other key]
  · rw [if_neg sync]
    by_cases null : pidOf p = 0x1FFF
    · rw [if_neg fun counted => counted.2 null] at key
      rw [if_pos null,pidTable.step_other key]
    · rw [if_pos ⟨not_not.mp sync,null⟩] at key
      rw [if_neg null]
      cases found : st.slots.findIdx? fun slot => slot.1 == pidOf p with
      | none =>
        rw [pidTable.step_first key (lookup_findIdx_none found)]
        dsimp only [TsCcState.nPids]
        show ((if st.slots.length < tsCcMaxPids then _ else _),0) = _
        split
        · rename_i room
          rw [if_pos (show st.slots.length < pidTable.capacity from room)]
          rfl
        · rename_i full
          rw [if_neg (show ¬ st.slots.length < pidTable.capacity from full)]
      | some slot =>
        obtain ⟨state,updated⟩ := lookup_findIdx found
        rw [pidTable.step_tracked key state]
        show _ = ((⟨update _ _ (pidAutomaton.next _ p).1⟩ : TsCcState),(pidAutomaton.next _ p).2)
        unfold pidAutomaton
        dsimp only
        by_cases payload : HasPayload p
        · rw [if_pos payload,if_pos payload,updated]
        · rw [if_neg payload,if_neg payload,update_same state]

theorem checkPackets_run (packets : List Text) (st : TsCcState) :
    checkPackets packets st = (⟨(pidTable.run st.slots packets).1⟩,(pidTable.run st.slots packets).2) := by
  induction packets generalizing st with
  | nil => rfl
  | cons p rest ih =>
    unfold checkPackets
    rw [checkPacket_step]
    dsimp only
    rw [ih]
    rfl

section Calls

theorem checkFrom_packets {data : Text} (short : data.length < wrapAt) (bound k : Nat) (inside : 188 * k ≤ data.length)
    (enough : data.length < bound + 188 * k) (st : TsCcState) (breaks : Nat) :
    checkFrom data bound (188 * k : Nat) st breaks =
      .ok ((checkPackets ((packetsOf data).drop k) st).1,breaks + (checkPackets ((packetsOf data).drop k) st).2) := by
  induction bound generalizing k st breaks with
  | zero => omega
  | succ bound ih =>
    unfold wrapAt at short
    have next : int32 ((188 * k : Nat) + 188) = (188 * (k + 1) : Nat) := int32_of_small (x := 188 * (k + 1)) (by omega)
    rw [packetsOf_drop,checkFrom,next]
    by_cases more : 188 * k + 188 ≤ data.length
    · rw [if_pos more,if_pos (by omega),if_neg (by omega),Int.toNat_natCast,window_eq more,ok_bind]
      dsimp only
      rw [ih (k + 1) more (by omega),Nat.add_assoc]
      rfl
    · rw [if_neg more,if_neg (by omega)]
      rfl

theorem slsTsCheckContinuity_packets {data : Text} (short : data.length < wrapAt) (st : TsCcState) :
    slsTsCheckContinuity data st = .ok (checkPackets (packetsOf data) st) := by
  have checked := checkFrom_packets short (data.length + 1) 0 (Nat.zero_le _) (by omega) st 0
  rw [List.drop_zero,Nat.zero_add] at checked
  exact checked

/-- On a longer buffer the index wraps below zero, which is not past the end. -/
theorem checkFrom_faults {data : Text} (long : wrapAt ≤ data.length) (sized : data.length ≤ 2147483647) (bound k : Nat)
    (below : k ≤ 11422785) (enough : data.length < bound + 188 * k) (st : TsCcState) (breaks : Nat) :
    checkFrom data bound (188 * k : Nat) st breaks = .error .outOfBounds := by
  induction bound generalizing k st breaks with
  | zero =>
    unfold wrapAt at long
    omega
  | succ bound ih =>
    unfold wrapAt at long
    by_cases last : k = 11422785
    · have next : int32 ((188 * k : Nat) + 188) = -2147483528 := by
        rw [last]
        decide
      have outside : window data (188 * k) 188 = .error .outOfBounds := if_neg (by omega)
      rw [checkFrom,next,if_pos (by omega),if_neg (by omega),Int.toNat_natCast,outside]
      rfl
    · have more : 188 * k + 188 ≤ data.length := by omega
      have next : int32 ((188 * k : Nat) + 188) = (188 * (k + 1) : Nat) := int32_of_small (x := 188 * (k + 1)) (by omega)
      rw [checkFrom,next,if_pos (by omega),if_neg (by omega),Int.toNat_natCast,window_eq more,ok_bind]
      exact ih (k + 1) (by omega) (by omega) _ _

theorem slsTsCheckContinuity_faults {data : Text} (long : wrapAt ≤ data.length) (sized : data.length ≤ 2147483647)
    (st : TsCcState) : slsTsCheckContinuity data st = .error .outOfBounds :=
  checkFrom_faults long sized (data.length + 1) 0 (Nat.zero_le _) (by omega) st 0

theorem checkPackets_append (first second : List Text) (st : TsCcState) :
    checkPackets (first ++ second) st =
      ((checkPackets second (checkPackets first st).1).1,
        (checkPackets first st).2 + (checkPackets second (checkPackets first st).1).2) := by
  rw [checkPackets_run,pidTable.run_append,checkPackets_run first,checkPackets_run second]

theorem checkCalls_packets {calls : List Text} (short : ∀ data ∈ calls, data.length < wrapAt) (st : TsCcState) :
    checkCalls calls st = .ok (checkPackets (calls.flatMap packetsOf) st) := by
  induction calls generalizing st with
  | nil => rfl
  | cons data calls ih =>
    rw [checkCalls,slsTsCheckContinuity_packets (short data List.mem_cons_self),ok_bind]
    dsimp only
    rw [ih (fun other among => short other (List.mem_cons_of_mem data among)),ok_bind,List.flatMap_cons,checkPackets_append]
    rfl

theorem checkCalls_short {calls : List Text} (sized : ∀ data ∈ calls, data.length ≤ 2147483647) {st : TsCcState}
    {result : TsCcState × Nat} (ran : checkCalls calls st = .ok result) : ∀ data ∈ calls, data.length < wrapAt := by
  induction calls generalizing st result with
  | nil => exact fun _ among => nomatch among
  | cons data calls ih =>
    obtain ⟨⟨next,first⟩,checked,rest⟩ := bind_eq_ok ran
    obtain ⟨later,ran',_⟩ := bind_eq_ok rest
    intro other among
    obtain rfl | among := List.mem_cons.mp among
    · by_contra long
      rw [slsTsCheckContinuity_faults (Nat.le_of_not_lt long) (sized other List.mem_cons_self)] at checked
      cases checked
    · exact ih (fun other among => sized other (List.mem_cons_of_mem data among)) ran' other among

end Calls

section Rule

/-- The counter of the next packet of a PID. -/
def Follows (p q : Text) : Prop := cc q = if HasPayload q then (cc p + 1) % 16 else cc p

/-- Duplicates allowed. -/
def FollowsOrRepeats (p q : Text) : Prop := Follows p q ∨ cc q = cc p

def ownPackets (pid : Nat) (packets : List Text) : List Text := packets.filter fun p => countedPid p = some pid

def pids (packets : List Text) : Finset Nat := (packets.filterMap countedPid).toFinset

def Regular (packets : List Text) : Prop := ∀ pid, (ownPackets pid packets).IsChain FollowsOrRepeats

theorem cc_lt (p : Text) : cc p < 16 := Nat.mod_lt _ (by decide)

theorem regular_total {p : Text} {rest : List Text} (regular : (p::rest).IsChain FollowsOrRepeats) :
    pidAutomaton.total (cc p) rest = 0 ∧ pidAutomaton.last (cc p) rest = cc ((p::rest).getLast (List.cons_ne_nil p rest)) := by
  induction rest generalizing p with
  | nil => exact ⟨rfl,rfl⟩
  | cons q rest ih =>
    obtain ⟨follows,later⟩ := List.isChain_cons_cons.mp regular
    have stepped : pidAutomaton.next (cc p) q = (cc q,0) := by
      unfold pidAutomaton
      dsimp only
      by_cases payload : HasPayload q
      · rw [if_pos payload,if_neg]
        rintro ⟨jumps,differs,_⟩
        obtain strict | same := follows
        · unfold Follows at strict
          rw [if_pos payload] at strict
          exact jumps strict
        · exact differs same
      · have same : cc q = cc p := by
          obtain strict | same := follows
          · unfold Follows at strict
            rwa [if_neg payload] at strict
          · exact same
        rw [if_neg payload,same]
    obtain ⟨quiet,last⟩ := ih later
    constructor
    · show (pidAutomaton.next (cc p) q).2 + pidAutomaton.total (pidAutomaton.next (cc p) q).1 rest = 0
      rw [stepped,quiet]
    · show pidAutomaton.last (pidAutomaton.next (cc p) q).1 rest = _
      rw [stepped,last]
      rfl

theorem regular_alone {packets : List Text} (regular : packets.IsChain FollowsOrRepeats) : pidAutomaton.alone packets = 0 := by
  cases packets with
  | nil => rfl
  | cons p rest => exact (regular_total regular).1

theorem next_payloadLess {q : Text} (payload : ¬ HasPayload q) (lastCc : Nat) : pidAutomaton.next lastCc q = (lastCc,0) := if_neg payload

theorem chain_regular {packets : List Text} (chain : packets.IsChain Follows) : packets.IsChain FollowsOrRepeats :=
  chain.imp fun _ _ => Or.inl

theorem lagging_total {e : Text} {after : List Text} (chain : (e::after).IsChain Follows)
    (undeclared : ∀ p ∈ after, ¬ DeclaredDiscontinuity p) (payload : ∃ p ∈ after, HasPayload p) (lastCc : Nat) :
    pidAutomaton.total lastCc after = if (cc e + 1) % 16 = (lastCc + 1) % 16 ∨ (cc e + 1) % 16 = lastCc then 0 else 1 := by
  induction after generalizing e with
  | nil =>
    obtain ⟨_,member,_⟩ := payload
    cases member
  | cons q rest ih =>
    obtain ⟨follows,later⟩ := List.isChain_cons_cons.mp chain
    unfold Follows at follows
    by_cases here : HasPayload q
    · rw [if_pos here] at follows
      have stepped : pidAutomaton.next lastCc q =
          (cc q,if cc q ≠ (lastCc + 1) % 16 ∧ cc q ≠ lastCc ∧ ¬ DeclaredDiscontinuity q then 1 else 0) := if_pos here
      show (pidAutomaton.next lastCc q).2 + pidAutomaton.total (pidAutomaton.next lastCc q).1 rest = _
      rw [stepped]
      dsimp only
      rw [(regular_total (chain_regular later)).1,Nat.add_zero,follows]
      by_cases quiet : (cc e + 1) % 16 = (lastCc + 1) % 16 ∨ (cc e + 1) % 16 = lastCc
      · rw [if_pos quiet,if_neg fun broken => quiet.elim broken.1 broken.2.1]
      · rw [if_neg quiet,if_pos ⟨fun h => quiet (Or.inl h),fun h => quiet (Or.inr h),undeclared q List.mem_cons_self⟩]
    · rw [if_neg here] at follows
      have behind : ∃ p ∈ rest, HasPayload p := by
        obtain ⟨p,member,has⟩ := payload
        obtain rfl | member := List.mem_cons.mp member
        · exact absurd has here
        · exact ⟨p,member,has⟩
      show (pidAutomaton.next lastCc q).2 + pidAutomaton.total (pidAutomaton.next lastCc q).1 rest = _
      rw [next_payloadLess here,ih later (fun p member => undeclared p (List.mem_cons_of_mem q member)) behind,follows,Nat.zero_add]

theorem lost_total {e : Text} {gone after : List Text} (chain : (e::(gone ++ after)).IsChain Follows)
    (undeclared : ∀ p ∈ after, ¬ DeclaredDiscontinuity p) (payload : ∃ p ∈ after, HasPayload p) (lastCc : Nat) :
    pidAutomaton.total lastCc (gone.filter (fun p => ¬ HasPayload p) ++ after) =
      if (cc e + gone.countP (fun p => HasPayload p) + 1) % 16 = (lastCc + 1) % 16 ∨
        (cc e + gone.countP (fun p => HasPayload p) + 1) % 16 = lastCc then 0 else 1 := by
  induction gone generalizing e with
  | nil => exact lagging_total chain undeclared payload lastCc
  | cons q rest ih =>
    obtain ⟨follows,later⟩ := List.isChain_cons_cons.mp chain
    unfold Follows at follows
    have next := ih later
    by_cases here : HasPayload q
    · rw [if_pos here] at follows
      rw [List.filter_cons_of_neg (by simpa using here),List.countP_cons_of_pos (by simpa using here),next,follows]
      generalize rest.countP (fun p => HasPayload p) = k
      have same : ((cc e + 1) % 16 + k + 1) % 16 = (cc e + (k + 1) + 1) % 16 := by omega
      rw [same]
    · rw [if_neg here] at follows
      rw [List.filter_cons_of_pos (by simpa using here),List.countP_cons_of_neg (by simpa using here),List.cons_append]
      show (pidAutomaton.next lastCc q).2 + pidAutomaton.total (pidAutomaton.next lastCc q).1 _ = _
      rw [next_payloadLess here,next,follows,Nat.zero_add]

end Rule

section Stream

/-- The stream without the payload packets that one PID has in the stretch `gone`. -/
def damaged (pid : Nat) (before gone after : List Text) : List Text :=
  before ++ gone.filter (fun p => ¬ (countedPid p = some pid ∧ HasPayload p)) ++ after

def lostPayloads (pid : Nat) (gone : List Text) : Nat := gone.countP fun p => countedPid p = some pid ∧ HasPayload p

/-- A PID without duplicates and declared discontinuities loses payload packets behind
its first packet and before another payload packet. -/
structure Loses (pid : Nat) (before gone after : List Text) : Prop where
  regular : Regular (before ++ gone ++ after)
  few : (pids (before ++ gone ++ after)).card ≤ tsCcMaxPids
  noDuplicates : (ownPackets pid (before ++ gone ++ after)).IsChain Follows
  noDeclared : ∀ p ∈ ownPackets pid (before ++ gone ++ after), ¬ DeclaredDiscontinuity p
  notFirst : ownPackets pid before ≠ []
  payloadLeft : ∃ p ∈ ownPackets pid after, HasPayload p

theorem ownPackets_append (pid : Nat) (first second : List Text) :
    ownPackets pid (first ++ second) = ownPackets pid first ++ ownPackets pid second := List.filter_append first second

theorem ownPackets_other {pid other : Nat} (differs : other ≠ pid) (before gone after : List Text) :
    ownPackets other (damaged pid before gone after) = ownPackets other (before ++ gone ++ after) := by
  unfold damaged
  rw [ownPackets_append,ownPackets_append,ownPackets_append,ownPackets_append]
  congr 2
  unfold ownPackets
  rw [List.filter_filter]
  refine List.filter_congr fun p _ => ?_
  by_cases own : countedPid p = some other
  · simp [own,differs]
  · simp [own]

theorem ownPackets_damaged (pid : Nat) (before gone after : List Text) :
    ownPackets pid (damaged pid before gone after) =
      ownPackets pid before ++ (ownPackets pid gone).filter (fun p => ¬ HasPayload p) ++ ownPackets pid after := by
  unfold damaged
  rw [ownPackets_append,ownPackets_append]
  congr 2
  unfold ownPackets
  rw [List.filter_filter,List.filter_filter]
  refine List.filter_congr fun p _ => ?_
  by_cases own : countedPid p = some pid
  · simp [own]
  · simp [own]

theorem lostPayloads_own (pid : Nat) (gone : List Text) :
    lostPayloads pid gone = (ownPackets pid gone).countP fun p => HasPayload p := by
  unfold lostPayloads ownPackets
  rw [List.countP_filter]
  refine List.countP_congr fun p _ => ?_
  simp [and_comm]

theorem damaged_alone {pid : Nat} {before gone after : List Text} (loses : Loses pid before gone after) :
    pidAutomaton.alone (ownPackets pid (damaged pid before gone after)) =
      if lostPayloads pid gone % 16 = 0 ∨ lostPayloads pid gone % 16 = 15 then 0 else 1 := by
  have chain := loses.noDuplicates
  have undeclared := loses.noDeclared
  rw [ownPackets_append,ownPackets_append] at chain undeclared
  rw [ownPackets_damaged,lostPayloads_own]
  obtain ⟨p,front,first⟩ := List.exists_cons_of_ne_nil loses.notFirst
  rw [first] at chain ⊢
  have nonempty : p::front ≠ [] := List.cons_ne_nil p front
  obtain ⟨quiet,last⟩ := regular_total (chain_regular (List.append_assoc _ _ _ ▸ chain).left_of_append)
  -- the last packet in front of the loss
  have parts : p::front = (p::front).dropLast ++ [(p::front).getLast nonempty] := (List.dropLast_append_getLast nonempty).symm
  have rest : ((p::front).getLast nonempty::(ownPackets pid gone ++ ownPackets pid after)).IsChain Follows := by
    rw [parts,List.append_assoc,List.append_assoc] at chain
    exact chain.right_of_append
  have lost := lost_total rest (fun q member => undeclared q (List.mem_append_right _ member)) loses.payloadLeft
    (cc ((p::front).getLast nonempty))
  rw [List.append_assoc,List.cons_append]
  show pidAutomaton.total (cc p) (front ++ _) = _
  rw [pidAutomaton.total_append,quiet,last,Nat.zero_add,lost]
  have small := cc_lt ((p::front).getLast nonempty)
  generalize cc ((p::front).getLast nonempty) = c at small
  generalize (ownPackets pid gone).countP (fun q => HasPayload q) = k
  have same : ((c + k + 1) % 16 = (c + 1) % 16 ∨ (c + k + 1) % 16 = c) ↔ (k % 16 = 0 ∨ k % 16 = 15) := by omega
  simp only [same]

theorem packets_total {packets : List Text} (few : (pids packets).card ≤ tsCcMaxPids) :
    (checkPackets packets slsInitTsCcState).2 = ∑ pid ∈ pids packets, pidAutomaton.alone (ownPackets pid packets) := by
  rw [checkPackets_run]
  exact pidTable.total_eq_sum few

theorem ownPackets_total (pid : Nat) (packets : List Text) :
    (checkPackets (ownPackets pid packets) slsInitTsCcState).2 = pidAutomaton.alone (ownPackets pid packets) := by
  rw [checkPackets_run]
  refine pidTable.total_own (k := pid) (fun p member => ?_) (by decide)
  exact of_decide_eq_true (List.mem_filter.mp member).2

theorem init_sound : pidTable.Sound [] := ⟨List.nodup_nil,Nat.zero_le _⟩

theorem regular_packets {packets : List Text} (regular : Regular packets) : (checkPackets packets slsInitTsCcState).2 = 0 := by
  rw [checkPackets_run]
  show (pidTable.run [] packets).2 = 0
  rw [pidTable.run_total [] packets init_sound]
  exact Finset.sum_eq_zero fun pid _ => regular_alone (regular pid)

theorem damaged_packets {pid : Nat} {before gone after : List Text} (loses : Loses pid before gone after) :
    (checkPackets (damaged pid before gone after) slsInitTsCcState).2 =
      if lostPayloads pid gone % 16 = 0 ∨ lostPayloads pid gone % 16 = 15 then 0 else 1 := by
  have inside : pids (damaged pid before gone after) ⊆ pids (before ++ gone ++ after) := by
    intro j member
    obtain ⟨p,among,own⟩ := List.mem_filterMap.mp (List.mem_toFinset.mp member)
    refine List.mem_toFinset.mpr (List.mem_filterMap.mpr ⟨p,?_,own⟩)
    unfold damaged at among
    simp only [List.mem_append,List.mem_filter] at among ⊢
    exact among.imp_left fun front => front.imp_right And.left
  have tracked : pid ∈ pids (damaged pid before gone after) := by
    obtain ⟨p,rest,first⟩ := List.exists_cons_of_ne_nil loses.notFirst
    have among : p ∈ ownPackets pid before := first ▸ List.mem_cons_self
    obtain ⟨member,own⟩ := List.mem_filter.mp among
    refine List.mem_toFinset.mpr (List.mem_filterMap.mpr ⟨p,?_,of_decide_eq_true own⟩)
    exact List.mem_append_left _ (List.mem_append_left _ member)
  rw [packets_total (Nat.le_trans (Finset.card_le_card inside) loses.few),Finset.sum_eq_single_of_mem pid tracked]
  · exact damaged_alone loses
  · intro other _ differs
    rw [ownPackets_other differs]
    exact regular_alone (loses.regular other)

/-- What the breaks counted over a stream say. -/
structure Counted (packets : List Text) (st : TsCcState) (breaks : Nat) : Prop where
  perPid : (pids packets).card ≤ tsCcMaxPids →
    breaks = ∑ pid ∈ pids packets, (checkPackets (ownPackets pid packets) slsInitTsCcState).2
  regular : Regular packets → breaks = 0
  lost : ∀ pid before gone after, packets = damaged pid before gone after → Loses pid before gone after →
    breaks = if lostPayloads pid gone % 16 = 0 ∨ lostPayloads pid gone % 16 = 15 then 0 else 1
  distinct : (keys st.slots).Nodup
  bounded : st.nPids ≤ tsCcMaxPids

theorem checkPackets_counted (packets : List Text) :
    Counted packets (checkPackets packets slsInitTsCcState).1 (checkPackets packets slsInitTsCcState).2 := by
  have sound := init_sound.run packets
  constructor
  · intro few
    rw [packets_total few]
    exact Finset.sum_congr rfl fun pid _ => (ownPackets_total pid packets).symm
  · exact regular_packets
  · rintro pid before gone after rfl loses
    exact damaged_packets loses
  · rw [checkPackets_run]
    exact sound.distinct
  · rw [checkPackets_run]
    exact sound.fits

/-- However a stream of whole packets is divided into calls, the breaks are those of its
PIDs, unless a call is long enough for the index to overflow. -/
theorem continuity_counted_iff (calls : List Text) (sized : ∀ data ∈ calls, data.length ≤ 2147483647)
    (whole : ∀ data ∈ calls, 188 ∣ data.length) :
    (∃ st breaks, checkCalls calls slsInitTsCcState = .ok (st,breaks) ∧ Counted (packetsOf calls.flatten) st breaks) ↔
      ∀ data ∈ calls, data.length < wrapAt := by
  constructor
  · rintro ⟨st,breaks,ran,_⟩
    exact checkCalls_short sized ran
  · intro short
    refine ⟨_,_,checkCalls_packets short slsInitTsCcState,?_⟩
    rw [packetsOf_flatten_calls whole]
    exact checkPackets_counted (packetsOf calls.flatten)

/-- A payload packet of a PID below 256. -/
def ccPacket (pid cc : UInt8) : Text := [0x47,0,pid,0x10 ||| cc] ++ List.replicate 184 0xFF

theorem ccPacket_length (pid cc : UInt8) : (ccPacket pid cc).length = 188 := by
  unfold ccPacket
  rw [List.length_append,List.length_replicate]
  rfl

theorem continuity_counted_iff_three_calls :
    ∃ st breaks, checkCalls [ccPacket 1 0,ccPacket 2 7 ++ ccPacket 1 1,ccPacket 1 5] slsInitTsCcState = .ok (st,breaks) ∧
      Counted (packetsOf [ccPacket 1 0,ccPacket 2 7 ++ ccPacket 1 1,ccPacket 1 5].flatten) st breaks := by
  have sizes : ∀ data ∈ [ccPacket 1 0,ccPacket 2 7 ++ ccPacket 1 1,ccPacket 1 5], data.length = 188 ∨ data.length = 376 := by
    intro data among
    simp only [List.mem_cons,List.not_mem_nil,or_false] at among
    obtain rfl | rfl | rfl := among
    · exact Or.inl (ccPacket_length 1 0)
    · refine Or.inr ?_
      rw [List.length_append,ccPacket_length,ccPacket_length]
    · exact Or.inl (ccPacket_length 1 5)
  refine (continuity_counted_iff _ (fun data among => ?_) fun data among => ?_).mpr fun data among => ?_
  · have size := sizes data among
    omega
  · have size := sizes data among
    omega
  · have size := sizes data among
    unfold wrapAt
    omega

/-- The largest multiple of 188 that an `int` holds, in one call. -/
theorem longest_call_uncounted :
    ¬ ∀ calls : List Text, (∀ data ∈ calls, data.length ≤ 2147483647) → (∀ data ∈ calls, 188 ∣ data.length) →
      ∃ st breaks, checkCalls calls slsInitTsCcState = .ok (st,breaks) ∧ Counted (packetsOf calls.flatten) st breaks := by
  intro claim
  obtain ⟨one,size⟩ : ∃ one : Text, one.length = 2147483580 := ⟨List.replicate 2147483580 0,List.length_replicate⟩
  have sized : ∀ data ∈ [one], data.length ≤ 2147483647 := by
    intro data among
    rw [List.mem_singleton.mp among,size]
    decide
  obtain ⟨st,breaks,ran,_⟩ := claim [one] sized (fun data among => by
    rw [List.mem_singleton.mp among,size]
    decide)
  have short := checkCalls_short sized ran one (List.mem_singleton_self one)
  rw [size] at short
  exact absurd short (by decide)

end Stream

end SrtLiveServer.ContinuityCounter
