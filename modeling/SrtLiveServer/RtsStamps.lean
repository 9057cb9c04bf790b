import SrtLiveServer.PesTimestamp
import SrtLiveServer.RtsFile

/-! The time stamps of the records that `generate_rts_file` writes. What it reads off the
packets fits 32 bits, and what it adds up from there stays far from the end of `int64_t`. -/
namespace SrtLiveServer.RtsFile
open Bytes SlsArray TsPacket Checked PesTimestamp

def Stamp (v : Int) : Prop := -2 ^ 31 ≤ v ∧ v < 2 ^ 31

theorem invalid_stamp : Stamp invalidDtsPts := ⟨by decide,by decide⟩

theorem ffParsePesPts_stamp (buf : Text) : Yields (ffParsePesPts buf) Stamp := by
  unfold ffParsePesPts
  refine Yields.ite (fun _ => Yields.pure invalid_stamp) fun long => ?_
  refine (readAt_yields (by omega)).bind fun b0 _ => ?_
  refine (readAt_yields (by omega)).bind fun b1 _ => ?_
  refine (readAt_yields (by omega)).bind fun b2 _ => ?_
  refine (readAt_yields (by omega)).bind fun b3 _ => ?_
  refine (readAt_yields (by omega)).bind fun b4 _ => Yields.pure ?_
  have high := high_toNat b0
  have middle := middle_toNat b1 b2
  have low := low_toNat b3 b4
  generalize ((b0 &&& 0x0E).toBitVec.setWidth 32 <<< 29).signExtend 64 = first at *
  generalize ((b1.toBitVec.setWidth 64 <<< 8 ||| (b2.toBitVec.setWidth 64 >>> 1)) <<< 15 : BitVec 64) = second at *
  generalize (b3.toBitVec.setWidth 64 <<< 8 ||| b4.toBitVec.setWidth 64).sshiftRight 1 = third at *
  have value : (0 ||| first ||| second ||| third : BitVec 64).toNat = first.toNat ||| (second.toNat ||| third.toNat) := by
    simp only [BitVec.toNat_or,Nat.or_assoc]
    exact Nat.zero_or _
  have b1s := b1.toNat_lt
  have b2s := b2.toNat_lt
  have b3s := b3.toNat_lt
  have b4s := b4.toNat_lt
  have below : second.toNat ||| third.toNat < 2 ^ 31 := Nat.or_lt_two_pow (by omega) (by omega)
  have all := (0 ||| first ||| second ||| third : BitVec 64).isLt
  unfold Stamp
  rw [BitVec.toInt_eq_toNat_cond,value]
  rw [value] at all
  by_cases negative : 2 ≤ b0.toNat / 2 % 4
  · -- the sign extension sets all bits from the 31st on
    have least : first.toNat ≤ first.toNat ||| (second.toNat ||| third.toNat) := Nat.left_le_or
    rw [if_pos negative] at high
    rw [if_neg (by omega)]
    omega
  · rw [if_neg negative] at high
    have small : first.toNat ||| (second.toNat ||| third.toNat) < 2 ^ 31 := Nat.or_lt_two_pow (by omega) below
    rw [if_pos (by omega)]
    omega

theorem slsPes2es_stamp (pes : Text) {ti : TsInfo} (stamp : Stamp ti.dts) : Yields (slsPes2es pes ti) fun r => Stamp r.2.dts := by
  unfold slsPes2es
  refine Yields.ite (fun _ => Yields.pure stamp) fun long => ?_
  refine (readAt_yields (by omega)).bind fun b0 _ => ?_
  refine (readAt_yields (by omega)).bind fun b1 _ => ?_
  refine (readAt_yields (by omega)).bind fun b2 _ => ?_
  refine Yields.ite (fun _ => Yields.pure stamp) fun _ => ?_
  refine Yields.ite (fun _ => Yields.pure stamp) fun more => ?_
  refine (readAt_yields (by omega)).bind fun streamId _ => ?_
  refine Yields.ite (fun _ => Yields.pure stamp) fun _ => ?_
  refine Yields.ite (fun _ => Yields.pure stamp) fun _ => ?_
  refine Yields.ite (fun _ => Yields.pure stamp) fun header => ?_
  refine (readAt_yields (by omega)).bind fun flags _ => ?_
  refine Yields.ite (fun _ => ?_) fun _ => Yields.ite (fun _ => ?_) fun _ => Yields.pure invalid_stamp
  · refine Yields.ite (fun _ => Yields.pure invalid_stamp) fun _ => ?_
    exact (ffParsePesPts_stamp _).bind fun pts stamped => Yields.pure stamped
  · refine Yields.ite (fun _ => Yields.pure invalid_stamp) fun _ => ?_
    refine (ffParsePesPts_stamp _).bind fun pts _ => ?_
    exact (ffParsePesPts_stamp _).bind fun dts stamped => Yields.pure stamped

theorem patFrom_dts {buffer : Text} {progEnd : Int} (bound n : Nat) {ti next : TsInfo}
    (parsed : patFrom buffer progEnd bound n ti = .ok next) : next.dts = ti.dts := by
  induction bound generalizing n ti with
  | zero => cases parsed
  | succ bound ih =>
    unfold patFrom at parsed
    split at parsed
    · obtain ⟨programNum,_,parsed⟩ := bind_eq_ok parsed
      obtain ⟨pid,_,parsed⟩ := bind_eq_ok parsed
      rw [ih (n + 4) parsed]
      split <;> rfl
    · cases parsed
      rfl

theorem slsParsePat_stamp (buffer : Text) {ti : TsInfo} (stamp : Stamp ti.dts) :
    Yields (slsParsePat buffer ti) fun r => Stamp r.2.dts := by
  obtain ⟨r,parsed,_⟩ := slsParsePat_yields buffer ti
  refine ⟨r,parsed,?_⟩
  unfold slsParsePat at parsed
  split at parsed
  · cases parsed
    exact stamp
  · obtain ⟨sectionLength,_,parsed⟩ := bind_eq_ok parsed
    obtain ⟨next,walked,parsed⟩ := bind_eq_ok parsed
    cases parsed
    rw [patFrom_dts _ _ walked]
    exact stamp

theorem slsParseTsInfo_stamp (packet : Text) {ti : TsInfo} (stamp : Stamp ti.dts) :
    Yields (slsParseTsInfo packet ti) fun r => Stamp r.2.dts := by
  unfold slsParseTsInfo
  refine Yields.ite (fun _ => Yields.pure stamp) fun short => ?_
  unfold tsPackLen at short ⊢
  refine (readAt_yields (by omega)).bind fun p0 _ => ?_
  refine Yields.ite (fun _ => Yields.pure stamp) fun _ => ?_
  refine (readAt_yields (by omega)).bind fun p1 _ => ?_
  refine Yields.ite (fun _ => Yields.pure stamp) fun _ => ?_
  refine (Timecode.wordAt_yields 32 (by omega)).bind fun pid _ => ?_
  refine Yields.ite (fun _ => Yields.pure stamp) fun _ => ?_
  refine Yields.ite (fun _ => Yields.pure stamp) fun _ => ?_
  refine (readAt_yields (by omega)).bind fun p3 _ => ?_
  refine Yields.ite (fun _ => Yields.pure stamp) fun _ => ?_
  refine (readAt_yields (by omega)).bind fun p4 _ => ?_
  refine Yields.ite (fun _ => Yields.pure stamp) fun inside => ?_
  refine Yields.ite (fun _ => ?_) fun _ => ?_
  · exact (window_yields (by omega)).bind fun buffer _ => slsParsePat_stamp buffer stamp
  · refine (window_yields (by omega)).bind fun pes _ => ?_
    refine (slsPes2es_stamp pes stamp).bind fun result stamped => Yields.pure ?_
    dsimp only
    split
    · exact stamped
    · exact stamped

/-- The time stamps that are added up stay below `2 ^ 43`. -/
structure Reader.Timed (r : Reader) : Prop where
  dts : Stamp r.dts
  ti : Stamp r.ti.dts
  duration : r.udpDuration.natAbs ≤ 2 ^ 32
  records : ∀ record ∈ r.rtsFile, record.rts.natAbs ≤ 2 ^ 43

theorem duration_bounded {first last : Int} (low : Stamp first) (high : Stamp last) (count : Int) :
    ((last - first).tdiv count).natAbs ≤ 2 ^ 32 := by
  rw [Int.natAbs_tdiv]
  refine (Nat.div_le_self _ _).trans ?_
  unfold Stamp at low high
  omega

theorem writeRecords_bounded {i : Nat} {array next : SLSArray} {rts duration : Int} {records : List Record}
    (wrote : writeRecords i array rts duration = some (next,records)) {bound : Nat}
    (within : rts.natAbs + i * duration.natAbs ≤ bound) : ∀ record ∈ records, record.rts.natAbs ≤ bound := by
  induction i generalizing array rts records with
  | zero =>
    cases wrote
    exact fun record member => nomatch member
  | succ i ih =>
    unfold writeRecords at wrote
    obtain ⟨⟨after,data⟩,_,wrote⟩ := Option.bind_eq_some_iff.mp wrote
    dsimp only at wrote
    split at wrote
    · cases wrote
      exact fun record member => nomatch member
    · obtain ⟨⟨last,rest⟩,wrote',same⟩ := Option.bind_eq_some_iff.mp wrote
      cases same
      rw [Nat.succ_mul] at within
      have later := ih wrote' (by have := Int.natAbs_add_le rts duration; omega)
      intro record member
      obtain rfl | member := List.mem_cons.mp member
      · exact Nat.le_trans (Nat.le_add_right _ _) within
      · exact later record member

theorem Reader.Follows.few {r : Reader} {done : Text} {b : Backlog} (follows : r.Follows done b) :
    (r.arrayData.dataCount.tdiv tsUdpLen).toNat ≤ 1000 := by
  obtain ⟨⟨q,sound,waiting⟩,_⟩ := follows
  have fits := sound.ready.holds.fits
  have size := sound.ready.size
  rw [sound.ready.udpCount waiting]
  omega

theorem Reader.Timed.flush {r next : Reader} (timed : r.Timed) (few : (r.arrayData.dataCount.tdiv tsUdpLen).toNat ≤ 1000)
    (flushed : r.flush = some next) : next.Timed := by
  unfold Reader.flush at flushed
  dsimp only at flushed
  split at flushed
  · obtain ⟨⟨array,records⟩,wrote,same⟩ := Option.bind_eq_some_iff.mp flushed
    cases same
    have paced := duration_bounded timed.dts timed.ti (r.arrayData.dataCount.tdiv tsUdpLen)
    refine ⟨timed.ti,timed.ti,paced,fun record member => ?_⟩
    obtain before | now := List.mem_append.mp member
    · exact timed.records record before
    · refine writeRecords_bounded wrote ?_ record now
      have start := timed.dts
      unfold Stamp at start
      have sum := Nat.mul_le_mul few paced
      omega
  · cases flushed
    exact timed

theorem Reader.Timed.put {r next : Reader} (timed : r.Timed) {p : Text} (put : r.put p = some next) : next.Timed := by
  unfold Reader.put at put
  obtain ⟨⟨array,written⟩,_,same⟩ := Option.bind_eq_some_iff.mp put
  cases same
  exact ⟨timed.dts,timed.ti,timed.duration,timed.records⟩

theorem Reader.Timed.packet {r next : Reader} (timed : r.Timed) (few : (r.arrayData.dataCount.tdiv tsUdpLen).toNat ≤ 1000)
    {p : Text} (ran : r.packet p = some next) : next.Timed := by
  obtain ⟨⟨ret,ti⟩,parsed,stamped⟩ := slsParseTsInfo_stamp p timed.ti
  unfold Reader.packet at ran
  rw [parsed] at ran
  change (if ti.dts = invalidDtsPts then _ else _) = some next at ran
  have told : Reader.Timed {r with ti := ti} := ⟨timed.dts,stamped,timed.duration,timed.records⟩
  split at ran
  · exact told.put ran
  split at ran
  · have first : Reader.Timed {r with dts := ti.dts,pts := ti.pts,dtsPid := ti.esPid,ti := TsInfo.reset ti} :=
      ⟨stamped,invalid_stamp,timed.duration,timed.records⟩
    exact first.put ran
  · obtain ⟨flushed,wrote,ran⟩ := Option.bind_eq_some_iff.mp ran
    have written := told.flush few wrote
    have reset : Reader.Timed {flushed with ti := TsInfo.reset ti} := ⟨written.dts,invalid_stamp,written.duration,written.records⟩
    exact reset.put ran

theorem dtsFlags_cons {p : Text} {ti next : TsInfo} {ret : Int} (parsed : slsParseTsInfo p ti = .ok (ret,next)) (rest : List Text) :
    dtsFlags ti (p::rest) = decide (next.dts ≠ invalidDtsPts)::
      dtsFlags (if next.dts = invalidDtsPts then next else TsInfo.reset next) rest := by
  rw [dtsFlags,parsed]
  dsimp only
  split
  · rename_i bare
    simp [bare]
  · rename_i stamped
    simp [stamped]

theorem Reader.Timed.packets {r next : Reader} (timed : r.Timed) {done : Text} {b : Backlog} (follows : r.Follows done b)
    {packets : List Text} (whole : ∀ p ∈ packets, p.length = 188) (fits : b.Fits (dtsFlags r.ti packets))
    (ran : r.packets packets = some next) : next.Timed := by
  induction packets generalizing r done b with
  | nil =>
    cases ran
    exact timed
  | cons p rest ih =>
    obtain ⟨⟨ret,ti⟩,parsed,_⟩ := slsParseTsInfo_yields p r.ti
    obtain ⟨middle,first,ran⟩ := Option.bind_eq_some_iff.mp ran
    rw [dtsFlags_cons parsed] at fits
    obtain ⟨now,later⟩ := fits
    obtain ⟨middle',first',held,kept⟩ := follows.packet (whole p List.mem_cons_self) parsed now
    cases first.symm.trans first'
    rw [← kept] at later
    exact ih (timed.packet follows.few first) held (fun other member => whole other (List.mem_cons_of_mem p member)) later ran

theorem Tail.get_bounded {i : Nat} {duration : Int} {t last : Tail} (ran : Tail.get i duration t = some last) {bound : Nat}
    (within : t.rts.natAbs + i * duration.natAbs ≤ bound) (records : ∀ record ∈ t.records, record.rts.natAbs ≤ bound) :
    last.rts.natAbs ≤ bound ∧ ∀ record ∈ last.records, record.rts.natAbs ≤ bound := by
  induction i generalizing t with
  | zero =>
    cases ran
    exact ⟨Nat.le_trans (Nat.le_add_right _ _) within,records⟩
  | succ i ih =>
    have here : t.rts.natAbs ≤ bound := Nat.le_trans (Nat.le_add_right _ _) within
    unfold Tail.get at ran
    obtain ⟨⟨array,data⟩,_,ran⟩ := Option.bind_eq_some_iff.mp ran
    dsimp only at ran
    split at ran
    · cases ran
      exact ⟨here,records⟩
    · rw [Nat.succ_mul] at within
      refine ih ran ?_ ?_
      · have sum := Int.natAbs_add_le t.rts duration
        dsimp only
        omega
      · intro record member
        obtain before | now := List.mem_append.mp member
        · exact records record before
        · rw [List.mem_singleton.mp now]
          exact here

theorem Reader.Timed.finish {r : Reader} (timed : r.Timed) (few : (r.arrayData.dataCount.tdiv tsUdpLen).toNat ≤ 1000)
    {records : List Record} (finished : r.finish = some records) : ∀ record ∈ records, record.rts.natAbs ≤ 2 ^ 43 := by
  have start := timed.dts
  unfold Stamp at start
  have bounded : ∀ t : Tail, (if 0 < r.arrayData.dataCount.tdiv tsUdpLen then
      Tail.get ((r.arrayData.dataCount.tdiv tsUdpLen).toNat + 1) r.udpDuration ⟨r.arrayData,r.dts,0,List.replicate tsUdpLen none,[]⟩
      else pure ⟨r.arrayData,r.dts,0,List.replicate tsUdpLen none,[]⟩) = some t →
      t.rts.natAbs ≤ 2 ^ 43 ∧ ∀ record ∈ t.records, record.rts.natAbs ≤ 2 ^ 43 := by
    intro t drained
    split at drained
    · refine Tail.get_bounded drained ?_ fun record member => nomatch member
      have sum : ((r.arrayData.dataCount.tdiv tsUdpLen).toNat + 1) * r.udpDuration.natAbs ≤ 1001 * 2 ^ 32 :=
        Nat.mul_le_mul (Nat.succ_le_succ few) timed.duration
      dsimp only
      omega
    · cases drained
      exact ⟨by dsimp only; omega,fun record member => nomatch member⟩
  obtain ⟨t,drained,closed⟩ : ∃ t, (if 0 < r.arrayData.dataCount.tdiv tsUdpLen then
      Tail.get ((r.arrayData.dataCount.tdiv tsUdpLen).toNat + 1) r.udpDuration ⟨r.arrayData,r.dts,0,List.replicate tsUdpLen none,[]⟩
      else pure ⟨r.arrayData,r.dts,0,List.replicate tsUdpLen none,[]⟩) = some t ∧
      (if 0 < t.n then (do
        let udpData ← fillNull t.n t.udpData
        pure (r.rtsFile ++ t.records ++ [⟨t.rts,udpData⟩])) else pure (r.rtsFile ++ t.records)) = some records := by
    unfold Reader.finish at finished
    dsimp only at finished
    split at finished
    · rename_i many
      rw [if_pos many]
      exact Option.bind_eq_some_iff.mp finished
    · rename_i none_
      rw [if_neg none_]
      exact Option.bind_eq_some_iff.mp finished
  obtain ⟨rts,each⟩ := bounded t drained
  have written : ∀ record ∈ r.rtsFile ++ t.records, record.rts.natAbs ≤ 2 ^ 43 := fun record member =>
    (List.mem_append.mp member).elim (timed.records record) (each record)
  split at closed
  · obtain ⟨udpData,_,same⟩ := Option.bind_eq_some_iff.mp closed
    cases same
    intro record member
    obtain before | now := List.mem_append.mp member
    · exact written record before
    · rw [List.mem_singleton.mp now]
      exact rts
  · cases closed
    exact written

/-- No time stamp of the file comes near the end of `int64_t`. -/
theorem generated_timed {dts pts dtsPid udpDuration : Int} (stamp : Stamp dts) (paced : udpDuration.natAbs ≤ 2 ^ 32)
    {file : Text} (fits : (startBacklog dts).Fits (fileFlags file)) {records : List Record}
    (generated : generateRtsFile dts pts dtsPid udpDuration file = some records) :
    ∀ record ∈ records, record.rts.natAbs ≤ 2 ^ 43 := by
  have ready : Ready ⟨fresh 1316000,0,0,0⟩ [] :=
    ⟨init_holds (by decide) (by decide),init_placed _,congrArg Int.ofNat List.length_replicate⟩
  have start : Reader.Follows ⟨dts,pts,dtsPid,udpDuration,⟨fresh 1316000,0,0,0⟩,slsInitTsInfo,[]⟩ [] (startBacklog dts) :=
    ⟨⟨[],⟨ready,rfl,fun record member => nomatch member⟩,rfl⟩,decide_eq_true_iff⟩
  have timed : Reader.Timed ⟨dts,pts,dtsPid,udpDuration,⟨fresh 1316000,0,0,0⟩,slsInitTsInfo,[]⟩ :=
    ⟨stamp,invalid_stamp,paced,fun record member => nomatch member⟩
  have packets : ∀ p ∈ Timecode.packetsOf file, p.length = 188 := fun p member => Timecode.packetsOf_whole member
  obtain ⟨r,ran,follows⟩ := start.packets packets fits
  have finished : r.finish = some records := by
    have whole : (Reader.packets ⟨dts,pts,dtsPid,udpDuration,⟨fresh 1316000,0,0,0⟩,slsInitTsInfo,[]⟩ (Timecode.packetsOf file) >>=
      Reader.finish) = some records := generated
    rw [ran] at whole
    exact whole
  exact (timed.packets start packets fits ran).finish follows.few finished

end SrtLiveServer.RtsFile
