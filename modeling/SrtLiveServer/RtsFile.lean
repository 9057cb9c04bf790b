import SrtLiveServer.SlsArray
import SrtLiveServer.TimecodeFraming
import SrtLiveServer.TsPacket

/-! `generate_rts_file`: a file of packets rewritten as records of a time stamp and seven
packets. The packets between two time stamps wait in a `CSLSArray`. Reads and writes
succeed in full. -/
namespace SrtLiveServer.RtsFile
open Bytes SlsArray TsPacket

def tsUdpLen : Nat := 1316

structure Record where
  rts : Int
  data : Cells
deriving DecidableEq

/-- The members that the function reads and writes, with its `ti` and the file it writes. -/
structure Reader where
  dts : Int
  pts : Int
  dtsPid : Int
  udpDuration : Int
  arrayData : SLSArray
  ti : TsInfo
  rtsFile : List Record

/-- A short `get` ends the loop. -/
def writeRecords : Nat → SLSArray → Int → Int → Option (SLSArray × List Record)
  | 0,array,_,_ => pure (array,[])
  | i + 1,array,rts,duration => do
    let (array,data) ← (array.get tsUdpLen).toOption
    if data.length ≠ tsUdpLen then pure (array,[])
    else do
      let (array,records) ← writeRecords i array (rts + duration) duration
      pure (array,⟨rts,data⟩::records)

def TsInfo.reset (ti : TsInfo) : TsInfo := {ti with dts := invalidDtsPts,pts := invalidDtsPts}

def Reader.put (r : Reader) (tsPack : Text) : Option Reader := do
  let (array,_) ← (r.arrayData.put tsPack).toOption
  pure {r with arrayData := array}

/-- The records that are full when the next time stamp is known. -/
def Reader.flush (r : Reader) : Option Reader := do
  let tsUdpCount := r.arrayData.dataCount.tdiv tsUdpLen
  if 0 < tsUdpCount then do
    let duration := (r.ti.dts - r.dts).tdiv tsUdpCount
    let (array,records) ← writeRecords tsUdpCount.toNat r.arrayData r.dts duration
    pure {r with
      arrayData := array
      rtsFile := r.rtsFile ++ records
      udpDuration := duration
      dts := r.ti.dts
      pts := r.ti.pts}
  else pure r

def Reader.packet (r : Reader) (tsPack : Text) : Option Reader := do
  let (_,ti) ← (slsParseTsInfo tsPack r.ti).toOption
  let r := {r with ti := ti}
  if ti.dts = invalidDtsPts then r.put tsPack
  else if r.dts = invalidDtsPts then
    Reader.put {r with dts := ti.dts,pts := ti.pts,dtsPid := ti.esPid,ti := TsInfo.reset ti} tsPack
  else do
    let r ← r.flush
    Reader.put {r with ti := TsInfo.reset ti} tsPack

def Reader.packets : Reader → List Text → Option Reader
  | r,[] => pure r
  | r,tsPack::rest => do
    let r ← r.packet tsPack
    r.packets rest

/-- The locals of the last block. -/
structure Tail where
  arrayData : SLSArray
  rts : Int
  n : Nat
  udpData : Cells
  records : List Record

def Tail.get : Nat → Int → Tail → Option Tail
  | 0,_,t => pure t
  | i + 1,duration,t => do
    let (array,data) ← (t.arrayData.get tsUdpLen).toOption
    let t := {t with arrayData := array,n := data.length,udpData := data ++ t.udpData.drop data.length}
    if data.length ≠ tsUdpLen then pure t
    else Tail.get i duration {t with rts := t.rts + duration,records := t.records ++ [⟨t.rts,t.udpData⟩]}

/-- A null packet's header at every packet from `n` on. -/
def fillNull (n : Nat) (udpData : Cells) : Option Cells :=
  (List.range' n ((tsUdpLen - n + 187) / 188) 188).foldlM
    (fun udpData (i : Nat) => (copyIn udpData i [some 0x47,some 0x1F,some 0xFF]).toOption) udpData

def Reader.finish (r : Reader) : Option (List Record) := do
  let tsUdpCount := r.arrayData.dataCount.tdiv tsUdpLen
  let start : Tail := ⟨r.arrayData,r.dts,0,List.replicate tsUdpLen none,[]⟩
  let t ← if 0 < tsUdpCount then Tail.get (tsUdpCount.toNat + 1) r.udpDuration start else pure start
  if 0 < t.n then do
    let udpData ← fillNull t.n t.udpData
    pure (r.rtsFile ++ t.records ++ [⟨t.rts,udpData⟩])
  else pure (r.rtsFile ++ t.records)

/-- A read of less than a packet ends the file. -/
def generateRtsFile (dts pts dtsPid udpDuration : Int) (file : Text) : Option (List Record) := do
  let array ← (SLSArray.setSize (tsUdpLen * 1000)).toOption
  let r ← Reader.packets ⟨dts,pts,dtsPid,udpDuration,array,slsInitTsInfo,[]⟩ (Timecode.packetsOf file)
  r.finish

/-- Which packets come with a time stamp. -/
def dtsFlags : TsInfo → List Text → List Bool
  | _,[] => []
  | ti,p::rest =>
    match slsParseTsInfo p ti with
    | .ok (_,next) => if next.dts = invalidDtsPts then false::dtsFlags next rest else true::dtsFlags (TsInfo.reset next) rest
    | .error _ => []

/-- The packets that wait, and whether a time stamp is known. -/
structure Backlog where
  known : Bool
  waiting : Nat
deriving DecidableEq

def Backlog.next (b : Backlog) (flag : Bool) : Backlog :=
  if flag then ⟨true,(if b.known then b.waiting % 7 else b.waiting) + 1⟩ else ⟨b.known,b.waiting + 1⟩

def Backlog.after (b : Backlog) (flags : List Bool) : Backlog := flags.foldl Backlog.next b

/-- At no point do more packets wait than `m_array_data` was made for. -/
def Backlog.Fits : Backlog → List Bool → Prop
  | _,[] => True
  | b,flag::rest => (b.next flag).waiting ≤ 7000 ∧ Backlog.Fits (b.next flag) rest

instance Backlog.decidableFits : (b : Backlog) → (flags : List Bool) → Decidable (b.Fits flags)
  | _,[] => .isTrue trivial
  | b,flag::rest =>
    have : Decidable (Backlog.Fits (b.next flag) rest) := Backlog.decidableFits (b.next flag) rest
    inferInstanceAs (Decidable (_ ∧ _))

def payloads (records : List Record) : Cells := records.flatMap Record.data

def NullPacket (p : Text) : Prop := p.length = 188 ∧ p.take 3 = [0x47,0x1F,0xFF]

/-- The payloads are the packets of the file, the last record filled up with null packets. -/
structure Complete (file : Text) (records : List Record) : Prop where
  full : ∀ record ∈ records, record.data.length = tsUdpLen
  all : ∃ padding : List Text, payloads records = (file ++ padding.flatten).map some ∧ padding.length < 7 ∧
    ∀ p ∈ padding, NullPacket p

/-- An array of the size that the function makes, before any expansion. -/
structure Ready (array : SLSArray) (q : Text) : Prop where
  holds : Holds array q
  placed : array.Placed
  size : array.dataSize = 1316000

theorem Ready.get {array : SLSArray} {q : Text} (ready : Ready array q) :
    ∃ next, array.get tsUdpLen = .ok (next,(q.take tsUdpLen).map some) ∧ Ready next (q.drop tsUdpLen) := by
  obtain ⟨next,got,holds,placed,size⟩ := @get_takes array q ready.holds tsUdpLen (Or.inl ready.placed)
  exact ⟨next,got,holds,placed ready.placed,size.trans ready.size⟩

theorem Ready.put {array : SLSArray} {q p : Text} (ready : Ready array q) (whole : p.length = 188)
    (room : q.length + 188 ≤ 1316000) : ∃ next written, array.put p = .ok (next,written) ∧ Ready next (q ++ p) := by
  have count := ready.holds.count
  have size := ready.size
  have stays : ¬ array.Expands p := by
    unfold SLSArray.Expands
    omega
  obtain ⟨next,done,holds,placed,same⟩ := put_writes ready.holds ready.placed (by omega) stays
  exact ⟨next,_,done,holds,placed,same.trans size⟩

theorem Ready.udpCount {array : SLSArray} {q : Text} (ready : Ready array q) {b : Nat} (waiting : q.length = 188 * b) :
    array.dataCount.tdiv tsUdpLen = (b / 7 : Nat) := by
  have count := ready.holds.count
  unfold tsUdpLen
  rw [count,waiting]
  show ((188 * b / 1316 : Nat) : Int) = _
  congr 1
  omega

theorem writeRecords_full {array : SLSArray} {q : Text} (ready : Ready array q) {i : Nat} (enough : tsUdpLen * i ≤ q.length)
    (rts duration : Int) :
    ∃ next records, writeRecords i array rts duration = some (next,records) ∧ Ready next (q.drop (tsUdpLen * i)) ∧
      payloads records = (q.take (tsUdpLen * i)).map some ∧ ∀ record ∈ records, record.data.length = tsUdpLen := by
  induction i generalizing array q rts with
  | zero => exact ⟨array,[],rfl,ready,rfl,fun _ member => nomatch member⟩
  | succ i ih =>
    rw [Nat.mul_succ] at enough
    obtain ⟨next,got,later⟩ := ready.get
    have full : ((q.take tsUdpLen).map some).length = tsUdpLen := by
      rw [List.length_map,List.length_take]
      omega
    obtain ⟨last,records,wrote,rest,put,each⟩ := ih later (by rw [List.length_drop]; omega) (rts + duration)
    refine ⟨last,⟨rts,(q.take tsUdpLen).map some⟩::records,?_,?_,?_,?_⟩
    · unfold writeRecords
      rw [got]
      show (if _ then _ else (writeRecords i next (rts + duration) duration >>= _)) = _
      rw [if_neg (not_not.mpr full),wrote]
      rfl
    · rw [List.drop_drop] at rest
      rw [Nat.mul_succ,Nat.add_comm]
      exact rest
    · show (q.take tsUdpLen).map some ++ payloads records = _
      rw [put,← List.map_append,Nat.mul_succ,Nat.add_comm (tsUdpLen * i),List.take_add]
    · intro record member
      obtain rfl | member := List.mem_cons.mp member
      · exact full
      · exact each record member

/-- The packets done are those written and those that wait. -/
structure Reader.Sound (r : Reader) (done q : Text) : Prop where
  ready : Ready r.arrayData q
  kept : payloads r.rtsFile ++ q.map some = done.map some
  full : ∀ record ∈ r.rtsFile, record.data.length = tsUdpLen

theorem payloads_append (first second : List Record) : payloads (first ++ second) = payloads first ++ payloads second :=
  List.flatMap_append

theorem payloads_single (record : Record) : payloads [record] = record.data := List.append_nil _

theorem Reader.Sound.flush {r : Reader} {done q : Text} (sound : r.Sound done q) {b : Nat} (waiting : q.length = 188 * b) :
    ∃ next rest, r.flush = some next ∧ next.Sound done rest ∧ rest.length = 188 * (b % 7) ∧
      (next.dts = r.dts ∨ next.dts = r.ti.dts) := by
  have counted := sound.ready.udpCount waiting
  by_cases enough : 0 < b / 7
  · obtain ⟨array,records,wrote,ready,put,each⟩ := writeRecords_full sound.ready (i := b / 7) (by unfold tsUdpLen; omega) r.dts
      ((r.ti.dts - r.dts).tdiv (b / 7 : Nat))
    refine ⟨{r with
      arrayData := array
      rtsFile := r.rtsFile ++ records
      udpDuration := (r.ti.dts - r.dts).tdiv (b / 7 : Nat)
      dts := r.ti.dts
      pts := r.ti.pts},q.drop (tsUdpLen * (b / 7)),?_,⟨ready,?_,?_⟩,?_,Or.inr rfl⟩
    · unfold Reader.flush
      dsimp only
      rw [counted,if_pos (by omega),Int.toNat_natCast,wrote]
      rfl
    · show payloads (r.rtsFile ++ records) ++ _ = _
      rw [payloads_append,put,List.append_assoc,← List.map_append,List.take_append_drop]
      exact sound.kept
    · intro record member
      exact (List.mem_append.mp member).elim (sound.full record) (each record)
    · rw [List.length_drop,waiting]
      unfold tsUdpLen
      omega
  · refine ⟨r,q,?_,sound,?_,Or.inl rfl⟩
    · unfold Reader.flush
      dsimp only
      rw [counted,if_neg (by omega)]
      rfl
    · omega

theorem Reader.Sound.put {r : Reader} {done q p : Text} (sound : r.Sound done q) (whole : p.length = 188)
    (room : q.length + 188 ≤ 1316000) :
    ∃ next, r.put p = some next ∧ next.Sound (done ++ p) (q ++ p) ∧ next.ti = r.ti ∧ next.dts = r.dts := by
  obtain ⟨array,written,put,ready⟩ := sound.ready.put whole room
  refine ⟨{r with arrayData := array},?_,⟨ready,?_,sound.full⟩,rfl,rfl⟩
  · unfold Reader.put
    rw [put]
    rfl
  · rw [List.map_append,← List.append_assoc,sound.kept,List.map_append]

theorem Reader.Sound.same {r other : Reader} {done q : Text} (sound : r.Sound done q) (array : other.arrayData = r.arrayData)
    (written : other.rtsFile = r.rtsFile) : other.Sound done q :=
  ⟨array ▸ sound.ready,written ▸ sound.kept,written ▸ sound.full⟩

/-- The state of the loop as the backlog sees it. -/
structure Reader.Follows (r : Reader) (done : Text) (b : Backlog) : Prop where
  sound : ∃ q, r.Sound done q ∧ q.length = 188 * b.waiting
  known : b.known = true ↔ r.dts ≠ invalidDtsPts

theorem Reader.Follows.put {r : Reader} {done p : Text} {b : Backlog} (follows : r.Follows done b) (whole : p.length = 188)
    (fits : b.waiting + 1 ≤ 7000) :
    ∃ next, r.put p = some next ∧ next.Follows (done ++ p) ⟨b.known,b.waiting + 1⟩ ∧ next.ti = r.ti := by
  obtain ⟨⟨q,sound,waiting⟩,known⟩ := follows
  obtain ⟨next,put,held,kept,dts⟩ := sound.put whole (by omega)
  refine ⟨next,put,⟨⟨q ++ p,held,?_⟩,?_⟩,kept⟩
  · rw [List.length_append,waiting,whole]
    rfl
  · rw [dts]
    exact known

theorem Reader.Follows.packet {r : Reader} {done p : Text} {b : Backlog} (follows : r.Follows done b) (whole : p.length = 188)
    {ret : Int} {ti : TsInfo} (parsed : slsParseTsInfo p r.ti = .ok (ret,ti))
    (fits : (b.next (ti.dts ≠ invalidDtsPts)).waiting ≤ 7000) :
    ∃ next, r.packet p = some next ∧ next.Follows (done ++ p) (b.next (ti.dts ≠ invalidDtsPts)) ∧
      next.ti = if ti.dts = invalidDtsPts then ti else TsInfo.reset ti := by
  obtain ⟨⟨q,sound,waiting⟩,known⟩ := follows
  unfold Backlog.next at fits ⊢
  unfold Reader.packet
  rw [parsed]
  show ∃ next, (if ti.dts = invalidDtsPts then _ else _) = _ ∧ _
  by_cases bare : ti.dts = invalidDtsPts
  · have flag : decide (ti.dts ≠ invalidDtsPts) = false := by simp [bare]
    rw [flag,if_neg Bool.false_ne_true] at fits ⊢
    rw [if_pos bare,if_pos bare]
    have follows : Reader.Follows {r with ti := ti} done b := ⟨⟨q,sound.same rfl rfl,waiting⟩,known⟩
    exact follows.put whole fits
  · have flag : decide (ti.dts ≠ invalidDtsPts) = true := by simp [bare]
    rw [flag,if_pos rfl] at fits ⊢
    rw [if_neg bare,if_neg bare]
    by_cases first : r.dts = invalidDtsPts
    · have unknown : b.known = false := Bool.eq_false_iff.mpr fun seen => known.mp seen first
      rw [unknown,if_neg Bool.false_ne_true] at fits ⊢
      rw [if_pos first]
      have follows : Reader.Follows {r with
        dts := ti.dts
        pts := ti.pts
        dtsPid := ti.esPid
        ti := TsInfo.reset ti} done ⟨true,b.waiting⟩ := ⟨⟨q,sound.same rfl rfl,waiting⟩,fun _ => bare,fun _ => rfl⟩
      exact follows.put whole fits
    · have seen : b.known = true := known.mpr first
      rw [seen,if_pos rfl] at fits ⊢
      have same : Reader.Sound {r with ti := ti} done q := sound.same rfl rfl
      obtain ⟨flushed,rest,ran,held,left,dts⟩ := same.flush waiting
      rw [if_neg first,ran]
      have stamped : flushed.dts ≠ invalidDtsPts := by
        obtain before | now := dts
        · exact fun invalid => first (before.symm.trans invalid)
        · exact fun invalid => bare (now.symm.trans invalid)
      have follows : Reader.Follows {flushed with ti := TsInfo.reset ti} done ⟨true,b.waiting % 7⟩ :=
        ⟨⟨rest,held.same rfl rfl,left⟩,fun _ => stamped,fun _ => rfl⟩
      exact follows.put whole fits

theorem Reader.Follows.packets {r : Reader} {done : Text} {b : Backlog} (follows : r.Follows done b) {packets : List Text}
    (whole : ∀ p ∈ packets, p.length = 188) (fits : b.Fits (dtsFlags r.ti packets)) :
    ∃ next, r.packets packets = some next ∧ next.Follows (done ++ packets.flatten) (b.after (dtsFlags r.ti packets)) := by
  induction packets generalizing r done b with
  | nil =>
    refine ⟨r,rfl,?_⟩
    rw [List.flatten_nil,List.append_nil]
    exact follows
  | cons p rest ih =>
    obtain ⟨⟨ret,ti⟩,parsed,_⟩ := slsParseTsInfo_yields p r.ti
    have flags : dtsFlags r.ti (p::rest) = decide (ti.dts ≠ invalidDtsPts)::
        dtsFlags (if ti.dts = invalidDtsPts then ti else TsInfo.reset ti) rest := by
      rw [dtsFlags,parsed]
      dsimp only
      split
      · rename_i bare
        simp [bare]
      · rename_i stamped
        simp [stamped]
    rw [flags] at fits ⊢
    obtain ⟨first,later⟩ := fits
    obtain ⟨next,ran,held,kept⟩ := follows.packet (whole p List.mem_cons_self) parsed first
    rw [← kept] at later ⊢
    obtain ⟨last,all,ended⟩ := ih held (fun other member => whole other (List.mem_cons_of_mem p member)) later
    refine ⟨last,?_,?_⟩
    · show (r.packet p >>= fun next => next.packets rest) = _
      rw [ran]
      exact all
    · rw [List.flatten_cons,← List.append_assoc]
      exact ended

section Tail

theorem Tail.get_full {t : Tail} {q : Text} (ready : Ready t.arrayData q) (buffer : t.udpData.length = tsUdpLen)
    (enough : tsUdpLen ≤ q.length) (i : Nat) (duration : Int) :
    ∃ array, Ready array (q.drop tsUdpLen) ∧ Tail.get (i + 1) duration t = Tail.get i duration
      ⟨array,t.rts + duration,tsUdpLen,(q.take tsUdpLen).map some,t.records ++ [⟨t.rts,(q.take tsUdpLen).map some⟩]⟩ := by
  obtain ⟨array,got,later⟩ := ready.get
  have full : ((q.take tsUdpLen).map some).length = tsUdpLen := by
    rw [List.length_map,List.length_take]
    omega
  have covered : (q.take tsUdpLen).map some ++ t.udpData.drop ((q.take tsUdpLen).map some).length = (q.take tsUdpLen).map some := by
    rw [full,← buffer,List.drop_length,List.append_nil]
  refine ⟨array,later,?_⟩
  rw [Tail.get,got]
  show (if _ then _ else _) = _
  rw [if_neg (not_not.mpr full)]
  dsimp only
  rw [covered,full]

theorem Tail.get_run {t : Tail} {q stale : Text} (ready : Ready t.arrayData q) (buffer : t.udpData = stale.map some)
    (size : stale.length = tsUdpLen) {k r : Nat} (length : q.length = tsUdpLen * k + r) (short : r < tsUdpLen) (duration : Int) :
    ∃ last rest records, Tail.get (k + 1) duration t = some last ∧ last.n = r ∧ rest.length = tsUdpLen - r ∧
      last.udpData = (q.drop (tsUdpLen * k) ++ rest).map some ∧ last.records = t.records ++ records ∧
      payloads records = (q.take (tsUdpLen * k)).map some ∧ ∀ record ∈ records, record.data.length = tsUdpLen := by
  induction k generalizing t q stale with
  | zero =>
    rw [Nat.mul_zero,Nat.zero_add] at length
    obtain ⟨array,got,_⟩ := ready.get
    have all : q.take tsUdpLen = q := List.take_of_length_le (by omega)
    rw [all] at got
    refine ⟨{t with arrayData := array,n := r,udpData := (q ++ stale.drop r).map some},stale.drop r,[],?_,rfl,?_,rfl,?_,rfl,?_⟩
    · rw [Tail.get,got]
      show (if _ then _ else _) = _
      rw [if_pos (by rw [List.length_map]; omega),buffer,List.length_map,length,List.map_append,List.map_drop]
      rfl
    · rw [List.length_drop,size]
    · rw [List.append_nil]
    · exact fun record member => nomatch member
  | succ k ih =>
    rw [Nat.mul_succ] at length
    obtain ⟨array,later,stepped⟩ := Tail.get_full ready (by rw [buffer,List.length_map,size]) (show tsUdpLen ≤ q.length by omega)
      (k + 1) duration
    have full : (q.take tsUdpLen).length = tsUdpLen := by
      rw [List.length_take]
      omega
    obtain ⟨last,rest,records,ran,n,left,bytes,wrote,put,each⟩ := @ih
      ⟨array,t.rts + duration,tsUdpLen,(q.take tsUdpLen).map some,t.records ++ [⟨t.rts,(q.take tsUdpLen).map some⟩]⟩ _ _ later rfl full
      (by rw [List.length_drop]; omega)
    refine ⟨last,rest,⟨t.rts,(q.take tsUdpLen).map some⟩::records,stepped.trans ran,n,left,?_,?_,?_,?_⟩
    · rw [bytes,List.drop_drop,Nat.mul_succ,Nat.add_comm]
    · rw [wrote,List.append_assoc]
      rfl
    · show (q.take tsUdpLen).map some ++ payloads records = _
      rw [put,← List.map_append,Nat.mul_succ,Nat.add_comm (tsUdpLen * k),List.take_add]
    · intro record member
      obtain rfl | member := List.mem_cons.mp member
      · rw [List.length_map]
        exact full
      · exact each record member

theorem fill_null (front stale : Text) {m : Nat} (size : stale.length = 188 * m) :
    ∃ padding : List Text, padding.length = m ∧ (∀ p ∈ padding, NullPacket p) ∧
      (List.range' front.length m 188).foldlM
        (fun (udpData : Cells) (i : Nat) => (copyIn udpData i [some 0x47,some 0x1F,some 0xFF]).toOption)
        ((front ++ stale).map some) = some ((front ++ padding.flatten).map some) := by
  induction m generalizing front stale with
  | zero =>
    have nothing : stale = [] := List.length_eq_zero_iff.mp size
    subst nothing
    refine ⟨[],rfl,?_,rfl⟩
    intro p member
    cases member
  | succ m ih =>
    have copied := copyIn_append (front.map some) (stale.map some) (([0x47,0x1F,0xFF] : Text).map some)
      (by rw [List.length_map,List.length_map,size]; show 3 ≤ _; omega)
    rw [List.length_map,← List.map_append] at copied
    have copied : copyIn ((front ++ stale).map some) front.length [some 0x47,some 0x1F,some 0xFF] = _ := copied
    have packet : NullPacket ([0x47,0x1F,0xFF] ++ (stale.take 188).drop 3) := by
      refine ⟨?_,rfl⟩
      rw [List.length_append,List.length_drop,List.length_take]
      show 3 + _ = 188
      omega
    have parts : (front.map some ++ ([0x47,0x1F,0xFF] : Text).map some ++
        (stale.map some).drop (([0x47,0x1F,0xFF] : Text).map some).length : Cells) =
        (front ++ ([0x47,0x1F,0xFF] ++ (stale.take 188).drop 3) ++ stale.drop 188).map some := by
      have whole : stale.drop 3 = (stale.take 188).drop 3 ++ stale.drop 188 := by
        rw [List.drop_take,← List.drop_drop (i := 185) (j := 3)]
        exact (List.take_append_drop 185 (stale.drop 3)).symm
      rw [← List.map_drop,← List.map_append,← List.map_append]
      show (front ++ [0x47,0x1F,0xFF] ++ stale.drop 3).map some = _
      rw [whole]
      simp only [List.append_assoc]
    obtain ⟨padding,count,null,filled⟩ := ih (front ++ ([0x47,0x1F,0xFF] ++ (stale.take 188).drop 3)) (stale.drop 188)
      (by rw [List.length_drop]; omega)
    refine ⟨([0x47,0x1F,0xFF] ++ (stale.take 188).drop 3)::padding,by rw [List.length_cons,count],?_,?_⟩
    · intro p member
      obtain rfl | member := List.mem_cons.mp member
      · exact packet
      · exact null p member
    · rw [List.length_append,packet.1] at filled
      rw [List.range'_succ,List.foldlM_cons,copied]
      show (List.foldlM _ _ _ : Option Cells) = _
      rw [parts,filled,List.flatten_cons,List.append_assoc]

end Tail

section File

theorem flatten_length {packets : List Text} (whole : ∀ p ∈ packets, p.length = 188) :
    packets.flatten.length = 188 * packets.length := by
  induction packets with
  | nil => rfl
  | cons p rest ih =>
    rw [List.flatten_cons,List.length_append,whole p List.mem_cons_self,
      ih fun other member => whole other (List.mem_cons_of_mem p member),List.length_cons]
    omega

theorem Reader.Sound.finish_few {r : Reader} {done q : Text} (sound : r.Sound done q) {b : Nat} (waiting : q.length = 188 * b)
    (few : b < 7) : r.finish = some r.rtsFile := by
  have nothing : b / 7 = 0 := by omega
  unfold Reader.finish
  dsimp only
  rw [sound.ready.udpCount waiting,nothing]
  show some (r.rtsFile ++ []) = _
  rw [List.append_nil]

/-- The loop at the end leaves the packets behind the last full record at the front of
the buffer. -/
theorem Reader.Sound.drained {r : Reader} {done q : Text} (sound : r.Sound done q) {b : Nat} (waiting : q.length = 188 * b)
    (many : 7 ≤ b) : ∃ (last : Tail) (front rest : Text),
      Tail.get (b / 7 + 1) r.udpDuration ⟨r.arrayData,r.dts,0,List.replicate tsUdpLen none,[]⟩ = some last ∧
      last.n = 188 * (b % 7) ∧ last.udpData = (front ++ rest).map some ∧
      front.length = 188 * (b % 7) ∧ rest.length = tsUdpLen - 188 * (b % 7) ∧
      payloads (r.rtsFile ++ last.records) ++ front.map some = done.map some ∧
      ∀ record ∈ r.rtsFile ++ last.records, record.data.length = tsUdpLen := by
  obtain ⟨k,count⟩ : ∃ k, b / 7 = k + 1 := ⟨b / 7 - 1,by omega⟩
  -- the first get of the loop covers the buffer, which holds no byte yet
  obtain ⟨array,later,first⟩ := Tail.get_full (t := ⟨r.arrayData,r.dts,0,List.replicate tsUdpLen none,[]⟩) sound.ready
    List.length_replicate (by unfold tsUdpLen; omega) (k + 1) r.udpDuration
  have full : (q.take tsUdpLen).length = tsUdpLen := by
    rw [List.length_take]
    unfold tsUdpLen
    omega
  obtain ⟨last,rest,records,ran,n,left,bytes,wrote,put,each⟩ := Tail.get_run (t := ⟨array,r.dts + r.udpDuration,tsUdpLen,
      (q.take tsUdpLen).map some,[] ++ [⟨r.dts,(q.take tsUdpLen).map some⟩]⟩) later rfl full
    (k := k) (r := 188 * (b % 7)) (by rw [List.length_drop]; unfold tsUdpLen; omega) (by unfold tsUdpLen; omega) r.udpDuration
  rw [List.drop_drop,Nat.add_comm,← Nat.mul_succ] at bytes
  have sent : payloads last.records = (q.take (tsUdpLen * (k + 1))).map some := by
    rw [wrote,payloads_append,put]
    show payloads [⟨r.dts,(q.take tsUdpLen).map some⟩] ++ _ = _
    rw [payloads_single,← List.map_append,Nat.mul_succ,Nat.add_comm (tsUdpLen * k),List.take_add]
  refine ⟨last,q.drop (tsUdpLen * (k + 1)),rest,?_,n,bytes,?_,left,?_,?_⟩
  · rw [count]
    exact first.trans ran
  · rw [List.length_drop]
    unfold tsUdpLen
    omega
  · rw [payloads_append,sent,List.append_assoc,← List.map_append,List.take_append_drop]
    exact sound.kept
  · intro record member
    obtain before | member := List.mem_append.mp member
    · exact sound.full record before
    · rw [wrote] at member
      obtain now | member := List.mem_append.mp member
      · rw [List.mem_singleton.mp now,List.length_map]
        exact full
      · exact each record member

theorem fillNull_pads {front rest : Text} {m : Nat} (left : front.length = 188 * m)
    (size : rest.length = tsUdpLen - 188 * m) (few : m < 7) :
    ∃ padding : List Text, padding.length = 7 - m ∧ (∀ p ∈ padding, NullPacket p) ∧
      fillNull (188 * m) ((front ++ rest).map some) = some ((front ++ padding.flatten).map some) ∧
      (front ++ padding.flatten).length = tsUdpLen := by
  obtain ⟨padding,headers,null,filled⟩ := fill_null front rest (m := 7 - m) (by rw [size]; unfold tsUdpLen; omega)
  have steps : (tsUdpLen - 188 * m + 187) / 188 = 7 - m := by
    unfold tsUdpLen
    omega
  refine ⟨padding,headers,null,?_,?_⟩
  · unfold fillNull
    rw [steps,← left]
    exact filled
  · rw [List.length_append,left,flatten_length fun p member => (null p member).1,headers]
    unfold tsUdpLen
    omega

theorem Reader.Sound.finish_many {r : Reader} {done q : Text} (sound : r.Sound done q) {b : Nat} (waiting : q.length = 188 * b)
    (many : 7 ≤ b) : ∃ records, r.finish = some records ∧ Complete done records := by
  obtain ⟨last,front,rest,ran,n,bytes,left,size,kept,each⟩ := sound.drained waiting many
  have finished : r.finish = if 0 < last.n then (do
      let udpData ← fillNull last.n last.udpData
      pure (r.rtsFile ++ last.records ++ [⟨last.rts,udpData⟩])) else pure (r.rtsFile ++ last.records) := by
    unfold Reader.finish
    dsimp only
    rw [sound.ready.udpCount waiting,if_pos (by omega),Int.toNat_natCast,ran]
    rfl
  rw [finished,n]
  obtain whole | remainder := Nat.eq_zero_or_pos (b % 7)
  · rw [whole,Nat.mul_zero] at left ⊢
    have nothing : front = [] := List.length_eq_zero_iff.mp left
    rw [nothing,List.map_nil,List.append_nil] at kept
    refine ⟨_,if_neg (Nat.lt_irrefl 0),each,[],?_,by decide,fun p member => nomatch member⟩
    rw [kept,List.flatten_nil,List.append_nil]
  · obtain ⟨padding,headers,null,filled,record⟩ := fillNull_pads left size (Nat.mod_lt _ (by decide))
    rw [if_pos (by omega),bytes,filled]
    refine ⟨_,rfl,?_,padding,?_,by omega,null⟩
    · intro other member
      obtain before | now := List.mem_append.mp member
      · exact each other before
      · rw [List.mem_singleton.mp now,List.length_map]
        exact record
    · rw [payloads_append,payloads_single,List.map_append,← List.append_assoc,kept,List.map_append]

theorem packetsOf_file {file : Text} (whole : 188 ∣ file.length) : (Timecode.packetsOf file).flatten = file := by
  obtain ⟨n,size⟩ := whole
  induction n generalizing file with
  | zero =>
    rw [List.length_eq_zero_iff.mp size]
    rfl
  | succ n ih =>
    have first : (file.take 188).length = 188 := by
      rw [List.length_take]
      omega
    have parts := @Timecode.packetsOf_append (file.take 188) ⟨1,first⟩ (file.drop 188)
    rw [List.take_append_drop,Timecode.packetsOf_single first] at parts
    rw [parts,List.flatten_append,ih (by rw [List.length_drop]; omega)]
    simp only [List.flatten_cons,List.flatten_nil,List.append_nil,List.take_append_drop]

theorem Backlog.after_waiting {b : Backlog} {flags : List Bool} (filled : flags ≠ [] ∨ 0 < b.waiting) :
    0 < (b.after flags).waiting := by
  induction flags generalizing b with
  | nil => exact filled.resolve_left fun nonempty => nonempty rfl
  | cons flag rest ih =>
    refine ih (Or.inr ?_)
    unfold Backlog.next
    split
    · exact Nat.succ_pos _
    · exact Nat.succ_pos _

theorem dtsFlags_length (ti : TsInfo) (packets : List Text) : (dtsFlags ti packets).length = packets.length := by
  induction packets generalizing ti with
  | nil => rfl
  | cons p rest ih =>
    obtain ⟨⟨ret,next⟩,parsed,_⟩ := slsParseTsInfo_yields p ti
    rw [dtsFlags,parsed]
    dsimp only
    split
    · rw [List.length_cons,ih,List.length_cons]
    · rw [List.length_cons,ih,List.length_cons]

/-- What waits behind each packet of the file, from the `m_dts` of the reader. -/
def startBacklog (dts : Int) : Backlog := ⟨dts ≠ invalidDtsPts,0⟩

def fileFlags (file : Text) : List Bool := dtsFlags slsInitTsInfo (Timecode.packetsOf file)

/-- The loop over the file, where the array is never expanded. -/
theorem generateRtsFile_finish (dts pts dtsPid udpDuration : Int) {file : Text} (whole : 188 ∣ file.length)
    (fits : (startBacklog dts).Fits (fileFlags file)) :
    ∃ r q, generateRtsFile dts pts dtsPid udpDuration file = Reader.finish r ∧ r.Sound file q ∧
      q.length = 188 * ((startBacklog dts).after (fileFlags file)).waiting := by
  have sized : SLSArray.setSize (tsUdpLen * 1000) = .ok ⟨fresh 1316000,0,0,0⟩ := rfl
  have ready : Ready ⟨fresh 1316000,0,0,0⟩ [] :=
    ⟨init_holds (by decide) (by decide),init_placed _,congrArg Int.ofNat List.length_replicate⟩
  have start : Reader.Follows ⟨dts,pts,dtsPid,udpDuration,⟨fresh 1316000,0,0,0⟩,slsInitTsInfo,[]⟩ [] (startBacklog dts) :=
    ⟨⟨[],⟨ready,rfl,fun record member => nomatch member⟩,rfl⟩,decide_eq_true_iff⟩
  obtain ⟨r,ran,⟨⟨q,sound,waiting⟩,_⟩⟩ := start.packets (fun p member => Timecode.packetsOf_whole member) fits
  rw [List.nil_append,packetsOf_file whole] at sound
  refine ⟨r,q,?_,sound,waiting⟩
  unfold generateRtsFile
  rw [sized]
  show (Reader.packets _ (Timecode.packetsOf file) >>= Reader.finish) = _
  rw [ran]
  rfl

theorem Reader.Sound.incomplete {r : Reader} {file q : Text} (sound : r.Sound file q) {b : Nat} (waiting : q.length = 188 * b)
    (filled : 0 < b) (few : b < 7) : ¬ ∃ records, r.finish = some records ∧ Complete file records := by
  rintro ⟨records,finished,complete⟩
  rw [sound.finish_few waiting few] at finished
  obtain ⟨padding,bytes,_,_⟩ := complete.all
  have lengths := congrArg List.length sound.kept
  rw [Option.some.inj finished,bytes,List.length_append,List.length_map,List.length_map,List.length_map,
    List.length_append] at lengths
  omega

/-- Where the array is never expanded, the records hold the whole file exactly if it is
empty or seven packets are left for the last block. -/
theorem rts_file_complete_iff (dts pts dtsPid udpDuration : Int) (file : Text) (whole : 188 ∣ file.length)
    (fits : (startBacklog dts).Fits (fileFlags file)) :
    (∃ records, generateRtsFile dts pts dtsPid udpDuration file = some records ∧ Complete file records) ↔
      file = [] ∨ 7 ≤ ((startBacklog dts).after (fileFlags file)).waiting := by
  obtain ⟨r,q,generated,sound,waiting⟩ := generateRtsFile_finish dts pts dtsPid udpDuration whole fits
  rw [generated]
  constructor
  · intro complete
    by_contra neither
    obtain ⟨nonempty,few⟩ := not_or.mp neither
    refine sound.incomplete waiting ?_ (Nat.lt_of_not_le few) complete
    refine Backlog.after_waiting (Or.inl fun nothing => nonempty ?_)
    have length := congrArg List.length nothing
    unfold fileFlags at length
    rw [dtsFlags_length] at length
    rw [← packetsOf_file whole,List.length_eq_zero_iff.mp length]
    rfl
  · rintro (rfl | many)
    · have nothing : q.length = 188 * 0 := waiting
      refine ⟨_,sound.finish_few nothing (by decide),sound.full,[],?_,by decide,fun p member => nomatch member⟩
      have kept := sound.kept
      rw [List.length_eq_zero_iff.mp nothing] at kept
      exact (List.append_nil _).symm.trans kept
    · exact sound.finish_many waiting many

/-- A null packet. -/
def samplePacket : Text := [0x47,0x1F,0xFF,0x10] ++ List.replicate 184 0

theorem rts_file_complete_iff_one_record :
    ∃ records, generateRtsFile invalidDtsPts invalidDtsPts invalidPid 0 (List.replicate 7 samplePacket).flatten = some records ∧
      Complete (List.replicate 7 samplePacket).flatten records :=
  (rts_file_complete_iff invalidDtsPts invalidDtsPts invalidPid 0 _ (by decide +kernel) (by decide +kernel)).mpr
    (Or.inr (by decide +kernel))

theorem one_packet_lost :
    ¬ ∃ records, generateRtsFile invalidDtsPts invalidDtsPts invalidPid 0 samplePacket = some records ∧
      Complete samplePacket records := by
  obtain ⟨r,q,generated,sound,waiting⟩ := @generateRtsFile_finish invalidDtsPts invalidDtsPts invalidPid 0
    samplePacket (by decide +kernel) (by decide +kernel)
  have one : ((startBacklog invalidDtsPts).after (fileFlags samplePacket)).waiting = 1 := by decide +kernel
  rw [one] at waiting
  rw [generated]
  exact sound.incomplete waiting (by decide) (by decide)

end File

end SrtLiveServer.RtsFile
