import SrtLiveServer.RtsStamps

/-! `CTSFileTimeReader::get`: an `.rts` file played out record by record, and from the front
again where the playout loops. A read yields all that is there. -/
namespace SrtLiveServer.RtsFile
open Bytes SlsArray TsPacket

def rtsPackLen : Nat := tsUdpLen + 8

def rtsBufSize : Nat := rtsPackLen * 100

/-- An `int64_t` in memory. -/
def storeInt64 (v : Int) : Text := (List.range 8).map fun i => UInt8.ofNat ((BitVec.ofInt 64 v).toNat / 256 ^ i)

def loadInt64 (cells : Cells) : Int :=
  (BitVec.ofNat 64 (cells.foldr (fun cell n => (cell.getD 0).toNat + 256 * n) 0)).toInt

def Record.stored (record : Record) : Cells := (storeInt64 record.rts).map some ++ record.data

/-- What the two writes of each record leave in the file. -/
def stored (records : List Record) : Cells := records.flatMap Record.stored

/-- `fd` is the position in the file, where it is open. -/
structure Player where
  fd : Option Nat
  loop : Bool
  arrayData : SLSArray
  readedCount : Int

/-- `open`, behind `generate_rts_file`. -/
def Player.open (loop : Bool) : Player := ⟨some 0,loop,⟨fresh rtsBufSize,0,0,0⟩,0⟩

/-- What a call returns, and what it writes to `data` and `tm_ms`. -/
structure Got where
  ret : Int
  data : Cells
  tmMs : Option Int
deriving DecidableEq

/-- Whether the array has data to go on with. -/
def Player.refill (file : Text) (reopens : Bool) (p : Player) : Except Fault (Player × Bool) :=
  match p.fd with
  | none => pure (p,false)
  | some offset =>
    let rtsData := (file.drop offset).take rtsBufSize
    if rtsData ≠ [] then do
      let (array,_) ← p.arrayData.put rtsData
      pure ({p with fd := some (offset + rtsData.length),arrayData := array},true)
    else if p.loop = false then pure (p,false)
    else if reopens = false then pure ({p with fd := none,readedCount := 0},false)
    else
      let rtsData := file.take rtsBufSize
      if rtsData ≠ [] then do
        let (array,_) ← p.arrayData.put rtsData
        pure ({p with fd := some rtsData.length,arrayData := array,readedCount := 0},true)
      else pure ({p with fd := some 0,readedCount := 0},false)

def failed : Got := ⟨slsError,[],none⟩

def Player.unpack (p : Player) (size : Nat) : Except Fault (Player × Got) := do
  let (array,rts) ← p.arrayData.get 8
  if rts.length ≠ 8 then pure ({p with arrayData := array},failed)
  else do
    let (array,data) ← array.get size
    pure ({p with arrayData := array,readedCount := p.readedCount + data.length},
      ⟨if data.length = size then slsOk else slsError,data,some ((loadInt64 rts).tdiv 90)⟩)

def Player.get (file : Text) (reopens : Bool) (p : Player) (size : Nat) : Except Fault (Player × Got) :=
  if p.fd = none then pure (p,failed)
  else do
    let (p,filled) ← if p.arrayData.dataCount = 0 then p.refill file reopens else pure (p,true)
    if filled = false ∨ p.arrayData.dataCount = 0 then pure (p,failed)
    else p.unpack size

/-- Calls in a row, while the file is there. -/
def Player.gets (file : Text) : Nat → Player → Except Fault (Player × List Got)
  | 0,p => pure (p,[])
  | n + 1,p => do
    let (p,got) ← p.get file true tsUdpLen
    let (p,rest) ← p.gets file n
    pure (p,got::rest)

theorem storeInt64_length (v : Int) : (storeInt64 v).length = 8 := by
  unfold storeInt64
  rw [List.length_map,List.length_range]

theorem load_store {v : Int} (low : -2 ^ 63 ≤ v) (high : v < 2 ^ 63) : loadInt64 ((storeInt64 v).map some) = v := by
  have bound := (BitVec.ofInt 64 v).isLt
  have digits : ((storeInt64 v).map some).foldr (fun cell n => (cell.getD 0).toNat + 256 * n) 0 = (BitVec.ofInt 64 v).toNat := by
    unfold storeInt64
    generalize (BitVec.ofInt 64 v).toNat = n at *
    simp only [List.range,List.range.loop,List.map_cons,List.map_nil,List.foldr_cons,List.foldr_nil,Option.getD_some,
      UInt8.toNat_ofNat']
    omega
  unfold loadInt64
  rw [digits,BitVec.ofNat_toNat,BitVec.setWidth_eq,BitVec.toInt_ofInt]
  unfold Int.bmod
  dsimp only
  split <;> omega

section Records

variable {records : List Record}

def Record.Playable (record : Record) : Prop := record.data.length = tsUdpLen ∧ record.rts.natAbs ≤ 2 ^ 43

theorem Record.Playable.length {record : Record} (playable : record.Playable) : record.stored.length = rtsPackLen := by
  unfold Record.stored rtsPackLen
  rw [List.length_append,List.length_map,storeInt64_length,playable.1,Nat.add_comm]

theorem stored_length (playable : ∀ record ∈ records, record.Playable) : (stored records).length = rtsPackLen * records.length := by
  induction records with
  | nil => rfl
  | cons record rest ih =>
    show (record.stored ++ stored rest).length = _
    rw [List.length_append,(playable record List.mem_cons_self).length,
      ih fun other member => playable other (List.mem_cons_of_mem record member),List.length_cons,Nat.mul_succ,Nat.add_comm]

theorem stored_append (first second : List Record) : stored (first ++ second) = stored first ++ stored second :=
  List.flatMap_append

theorem stored_take (playable : ∀ record ∈ records, record.Playable) (n : Nat) :
    (stored records).take (rtsPackLen * n) = stored (records.take n) ∧ (stored records).drop (rtsPackLen * n) = stored (records.drop n) := by
  have parts : stored records = stored (records.take n) ++ stored (records.drop n) := by
    rw [← stored_append,List.take_append_drop]
  have front : (stored (records.take n)).length = _ := stored_length fun record member => playable record (List.mem_of_mem_take member)
  obtain few | many := Nat.le_total records.length n
  · have all := stored_length playable
    have most := Nat.mul_le_mul_left rtsPackLen few
    rw [List.take_of_length_le few,List.drop_of_length_le few,List.take_of_length_le (by omega),List.drop_of_length_le (by omega)]
    exact ⟨rfl,rfl⟩
  · rw [List.length_take,Nat.min_eq_left many] at front
    rw [parts,List.take_left' front,List.drop_left' front]
    exact ⟨rfl,rfl⟩

/-- The records in the array, and those that the descriptor has in front of it. -/
structure Player.Plays (p : Player) (file : Text) (pending later : List Record) : Prop where
  holds : ∃ q, Holds p.arrayData q ∧ q.map some = stored pending
  placed : p.arrayData.Placed
  size : p.arrayData.dataSize = rtsBufSize
  fd : ∃ offset, p.fd = some offset ∧ (file.drop offset).map some = stored later

theorem open_plays {file : Text} (loop : Bool) (written : file.map some = stored records) : (Player.open loop).Plays file [] records :=
  ⟨⟨[],init_holds (by decide) (by decide),rfl⟩,init_placed _,congrArg Int.ofNat List.length_replicate,0,rfl,written⟩

variable {p : Player} {file : Text} {pending later : List Record} {record : Record}

theorem Player.Plays.unpack (plays : p.Plays file (record::pending) later) (playable : record.Playable) :
    ∃ next, p.unpack tsUdpLen = .ok (next,⟨slsOk,record.data,some (record.rts.tdiv 90)⟩) ∧ next.Plays file pending later ∧
      next.loop = p.loop := by
  obtain ⟨⟨q,holds,queued⟩,placed,size,fd⟩ := plays
  have parts : q.map some = (storeInt64 record.rts).map some ++ (record.data ++ stored pending) := by
    rw [queued]
    show record.stored ++ stored pending = _
    rw [Record.stored,List.append_assoc]
  have eight : ((storeInt64 record.rts).map some).length = 8 := by rw [List.length_map,storeInt64_length]
  obtain ⟨array,got,holds,kept,same⟩ := @get_takes _ _ holds 8 (Or.inl placed)
  obtain ⟨array',got',holds',kept',same'⟩ := @get_takes _ _ holds tsUdpLen (Or.inl (kept placed))
  have rts : (q.take 8).map some = (storeInt64 record.rts).map some := by
    rw [List.map_take,parts,List.take_left' eight]
  have behind : (q.drop 8).map some = record.data ++ stored pending := by
    rw [List.map_drop,parts,List.drop_left' eight]
  have data : ((q.drop 8).take tsUdpLen).map some = record.data := by
    rw [List.map_take,behind,List.take_left' playable.1]
  have loaded := load_store (v := record.rts) (by have := playable.2; omega) (by have := playable.2; omega)
  rw [rts] at got
  rw [data] at got'
  refine ⟨{p with arrayData := array',readedCount := p.readedCount + record.data.length},?_,
    ⟨⟨(q.drop 8).drop tsUdpLen,holds',?_⟩,kept' (kept placed),same'.trans (same.trans size),fd⟩,rfl⟩
  · have got : p.arrayData.get 8 = .ok (array,(storeInt64 record.rts).map some) := got
    unfold Player.unpack
    rw [got]
    show (if ((storeInt64 record.rts).map some).length ≠ 8 then Except.ok ({p with arrayData := array},failed)
      else (array.get tsUdpLen >>= _)) = _
    rw [if_neg (not_not.mpr eight),got']
    show Except.ok _ = _
    rw [loaded,if_pos playable.1]
  · rw [List.map_drop,behind,List.drop_left' playable.1]

theorem Player.Plays.count (plays : p.Plays file pending later) (playable : ∀ record ∈ pending, record.Playable) :
    p.arrayData.dataCount = 0 ↔ pending = [] := by
  obtain ⟨⟨q,holds,queued⟩,_⟩ := plays
  have lengths := congrArg List.length queued
  have count := holds.count
  rw [List.length_map,stored_length playable] at lengths
  rw [count]
  constructor
  · intro nothing
    have none_ : rtsPackLen * pending.length = 0 := by omega
    exact List.length_eq_zero_iff.mp ((Nat.mul_eq_zero.mp none_).resolve_left (by decide))
  · rintro rfl
    exact_mod_cast lengths

theorem chunk (playable : ∀ record ∈ later, record.Playable) {data : Text} (written : data.map some = stored later) :
    (data.take rtsBufSize).map some = stored (later.take 100) ∧
      (data.drop (data.take rtsBufSize).length).map some = stored (later.drop 100) := by
  obtain ⟨front,back⟩ := stored_take playable 100
  constructor
  · rw [List.map_take,written]
    exact front
  · have rest : data.drop (data.take rtsBufSize).length = data.drop rtsBufSize := by
      rw [List.length_take]
      obtain few | many := Nat.le_total data.length rtsBufSize
      · rw [Nat.min_eq_right few,List.drop_length,List.drop_of_length_le few]
      · rw [Nat.min_eq_left many]
    rw [rest,List.map_drop,written]
    exact back

theorem Player.Plays.load (plays : p.Plays file [] pending) (playable : ∀ record ∈ later, record.Playable) {offset : Nat}
    (written : (file.drop offset).map some = stored later) (used : (file.drop offset).take rtsBufSize ≠ []) :
    ∃ array n, p.arrayData.put ((file.drop offset).take rtsBufSize) = .ok (array,n) ∧ ∀ readedCount,
      Player.Plays ⟨some (offset + ((file.drop offset).take rtsBufSize).length),p.loop,array,readedCount⟩ file
        (later.take 100) (later.drop 100) := by
  obtain ⟨⟨q,holds,queued⟩,placed,size,_⟩ := plays
  have nothing : q = [] := List.map_eq_nil_iff.mp queued
  subst nothing
  obtain ⟨front,back⟩ := chunk playable written
  have count := holds.count
  have few : ((file.drop offset).take rtsBufSize).length ≤ rtsBufSize := by
    rw [List.length_take]
    exact Nat.min_le_left _ _
  have stays : ¬ p.arrayData.Expands ((file.drop offset).take rtsBufSize) := by
    unfold SLSArray.Expands
    rw [size,count,List.length_nil]
    omega
  obtain ⟨array,done,holds,kept,same⟩ := put_writes holds placed (List.length_pos_iff.mpr used) stays
  refine ⟨array,_,done,fun readedCount => ⟨⟨_,holds,front⟩,kept,same.trans size,_,rfl,?_⟩⟩
  rw [← List.drop_drop]
  exact back

theorem stored_nil (playable : ∀ record ∈ later, record.Playable) {data : Text} (written : data.map some = stored later) :
    data.take rtsBufSize = [] ↔ later = [] := by
  have lengths := congrArg List.length written
  rw [List.length_map,stored_length playable] at lengths
  rw [← List.length_eq_zero_iff,← List.length_eq_zero_iff,List.length_take,lengths]
  unfold rtsBufSize rtsPackLen tsUdpLen
  omega

/-- What is played next: at the end of the file its first record, where the playout loops. -/
def upcoming (loop : Bool) (records : List Record) : List Record → List Record
  | [] => if loop then records else []
  | record::rest => record::rest

theorem Player.Plays.refill (plays : p.Plays file [] later) (all : ∀ record ∈ records, record.Playable)
    (playable : ∀ record ∈ later, record.Playable) (written : file.map some = stored records) :
    ∃ next filled pending' later', p.refill file true = .ok (next,filled) ∧ next.Plays file pending' later' ∧
      next.loop = p.loop ∧ pending' ++ later' = upcoming p.loop records later ∧ (filled = true ↔ pending' ≠ []) ∧
      (pending' = [] → later' = []) := by
  obtain ⟨offset,at_,ahead⟩ := plays.fd
  unfold Player.refill
  rw [at_]
  dsimp only
  have some_filled : ∀ {rest : List Record}, rest ≠ [] → (true = true ↔ rest.take 100 ≠ []) ∧ (rest.take 100 = [] → rest.drop 100 = []) := by
    intro rest nonempty
    cases rest with
    | nil => exact absurd rfl nonempty
    | cons record rest => exact ⟨⟨fun _ => List.cons_ne_nil _ _,fun _ => rfl⟩,fun nothing => nomatch nothing⟩
  by_cases used : (file.drop offset).take rtsBufSize = []
  · rw [if_neg (not_not.mpr used)]
    have ended : later = [] := (stored_nil playable ahead).mp used
    subst ended
    cases loops : p.loop with
    | false =>
      rw [if_pos rfl]
      exact ⟨p,false,[],[],rfl,plays,loops,rfl,⟨fun no => absurd no Bool.false_ne_true,fun no => absurd rfl no⟩,fun _ => rfl⟩
    | true =>
      rw [if_neg (by decide),if_neg (by decide)]
      have front : (file.drop 0).map some = stored records := written
      by_cases empty : file.take rtsBufSize = []
      · rw [if_neg (not_not.mpr empty)]
        have nothing : records = [] := (stored_nil all written).mp empty
        subst nothing
        exact ⟨_,false,[],[],rfl,⟨plays.holds,plays.placed,plays.size,0,rfl,front⟩,rfl,rfl,
          ⟨fun no => absurd no Bool.false_ne_true,fun no => absurd rfl no⟩,fun _ => rfl⟩
      · rw [if_pos empty]
        obtain ⟨array,n,put,loaded⟩ := plays.load all front empty
        have put : p.arrayData.put (file.take rtsBufSize) = .ok (array,n) := put
        have nonempty : records ≠ [] := fun nothing => empty ((stored_nil all written).mpr nothing)
        obtain ⟨filled,ended⟩ := some_filled nonempty
        have loaded := loaded 0
        rw [Nat.zero_add,loops] at loaded
        rw [put]
        exact ⟨_,true,records.take 100,records.drop 100,rfl,loaded,rfl,List.take_append_drop _ _,filled,ended⟩
  · rw [if_pos used]
    obtain ⟨array,n,put,loaded⟩ := plays.load playable ahead used
    have nonempty : later ≠ [] := fun nothing => used ((stored_nil playable ahead).mpr nothing)
    obtain ⟨filled,ended⟩ := some_filled nonempty
    have same : upcoming p.loop records later = later := by
      cases later with
      | nil => exact absurd rfl nonempty
      | cons record rest => rfl
    rw [put]
    refine ⟨_,true,later.take 100,later.drop 100,rfl,loaded _,rfl,?_,filled,ended⟩
    rw [List.take_append_drop,same]

def Record.got (record : Record) : Got := ⟨slsOk,record.data,some (record.rts.tdiv 90)⟩

theorem Player.Plays.get (plays : p.Plays file pending later) (all : ∀ record ∈ records, record.Playable)
    (playable : ∀ record ∈ pending ++ later, record.Playable) (written : file.map some = stored records) :
    ∃ next pending' later', p.get file true tsUdpLen = .ok (next,((upcoming p.loop records (pending ++ later)).head?.map Record.got).getD failed) ∧
      next.Plays file pending' later' ∧ next.loop = p.loop ∧
      pending' ++ later' = (upcoming p.loop records (pending ++ later)).tail := by
  have isOpen : p.fd ≠ none := by
    obtain ⟨offset,at_,_⟩ := plays.fd
    rw [at_]
    exact Option.some_ne_none offset
  have counted := plays.count fun record member => playable record (List.mem_append_left later member)
  unfold Player.get
  rw [if_neg isOpen]
  cases pending with
  | cons record rest =>
    obtain ⟨next,unpacked,kept,same⟩ := plays.unpack (playable record (List.mem_append_left later List.mem_cons_self))
    have full : ¬ p.arrayData.dataCount = 0 := fun zero => nomatch counted.mp zero
    refine ⟨next,rest,later,?_,kept,same,rfl⟩
    rw [if_neg full]
    show (if true = false ∨ p.arrayData.dataCount = 0 then Except.ok (p,failed) else p.unpack tsUdpLen) = _
    rw [if_neg (not_or.mpr ⟨Bool.noConfusion,full⟩),unpacked]
    rfl
  | nil =>
    obtain ⟨filled,more,pending',later',refilled,kept,same,remaining,is_filled,is_over⟩ := plays.refill all playable written
    rw [if_pos (counted.mpr rfl),refilled]
    show ∃ next _ _, (if more = false ∨ filled.arrayData.dataCount = 0 then Except.ok (filled,failed) else filled.unpack tsUdpLen) = _ ∧ _
    rw [List.nil_append,← remaining]
    have each : ∀ record ∈ pending' ++ later', record.Playable := by
      intro record member
      rw [remaining] at member
      cases later with
      | cons first rest => exact playable record member
      | nil =>
        change record ∈ if p.loop then records else [] at member
        split at member
        · exact all record member
        · cases member
    have recounted := kept.count fun record member => each record (List.mem_append_left later' member)
    cases pending' with
    | nil =>
      rw [if_pos (Or.inr (recounted.mpr rfl)),is_over rfl]
      exact ⟨filled,[],later',rfl,kept,same,by rw [is_over rfl]; rfl⟩
    | cons record rest =>
      obtain ⟨next,unpacked,kept',same'⟩ := kept.unpack (each record (List.mem_append_left later' List.mem_cons_self))
      have full : ¬ filled.arrayData.dataCount = 0 := fun zero => nomatch recounted.mp zero
      have went : more = true := is_filled.mpr (List.cons_ne_nil record rest)
      rw [if_neg (not_or.mpr ⟨by rw [went]; decide,full⟩),unpacked]
      exact ⟨next,rest,later',rfl,kept',same'.trans same,rfl⟩

/-- The `i`th call since the file was opened. -/
def played (loop : Bool) (records : List Record) (i : Nat) : Got :=
  (records[if loop then i % records.length else i]?.map Record.got).getD failed

/-- Where the playout stands after some calls. -/
def Standing (loop : Bool) (records : List Record) (calls j : Nat) : Prop :=
  j ≤ records.length ∧ if loop then records = [] ∨ calls % records.length = j % records.length else j = min calls records.length

theorem standing_next {loop : Bool} {calls j : Nat} (standing : Standing loop records calls j) :
    ((upcoming loop records (records.drop j)).head?.map Record.got).getD failed = played loop records calls ∧
      ∃ j', (upcoming loop records (records.drop j)).tail = records.drop j' ∧ Standing loop records (calls + 1) j' := by
  obtain ⟨inside,same⟩ := standing
  unfold played Standing
  cases ahead : records.drop j with
  | cons record rest =>
    have here : records[j]? = some record := by
      rw [← List.head?_drop,ahead]
      rfl
    have below : j < records.length := (List.getElem?_eq_some_iff.mp here).1
    have used : records ≠ [] := fun nothing => absurd below (by rw [nothing]; exact Nat.not_lt_zero j)
    have position : (if loop then calls % records.length else calls) = j := by
      split at same
      · rename_i loops
        rw [if_pos loops,same.resolve_left used,Nat.mod_eq_of_lt below]
      · rename_i once
        rw [if_neg once]
        omega
    refine ⟨?_,j + 1,?_,by omega,?_⟩
    · rw [position,here]
      rfl
    · rw [← List.tail_drop,ahead]
      rfl
    · split at same
      · rename_i loops
        rw [if_pos loops,Nat.add_mod,same.resolve_left used,← Nat.add_mod]
        exact .inr rfl
      · rename_i once
        rw [if_neg once]
        omega
  | nil =>
    have ended : j = records.length := Nat.le_antisymm inside (List.drop_eq_nil_iff.mp ahead)
    subst ended
    cases loop with
    | false =>
      have past : records.length ≤ calls := by
        have := same
        rw [if_neg Bool.false_ne_true] at this
        omega
      refine ⟨?_,records.length,?_,Nat.le_refl _,?_⟩
      · rw [if_neg Bool.false_ne_true,List.getElem?_eq_none past]
        rfl
      · rw [List.drop_length]
        rfl
      · rw [if_neg Bool.false_ne_true]
        omega
    | true =>
      rw [if_pos rfl] at same
      cases records with
      | nil => exact ⟨rfl,0,rfl,Nat.le_refl 0,.inl rfl⟩
      | cons record rest =>
        have round := same.resolve_left (List.cons_ne_nil record rest)
        rw [Nat.mod_self] at round
        rw [if_pos rfl,round]
        refine ⟨rfl,1,rfl,by rw [List.length_cons]; omega,.inr ?_⟩
        rw [Nat.add_mod,round,Nat.zero_add,Nat.mod_mod]

theorem Player.Plays.gets (plays : p.Plays file pending later) (all : ∀ record ∈ records, record.Playable)
    (written : file.map some = stored records) {calls j : Nat} (standing : Standing p.loop records calls j)
    (ahead : pending ++ later = records.drop j) (n : Nat) :
    ∃ last, p.gets file n = .ok (last,(List.range' calls n).map (played p.loop records)) := by
  induction n generalizing p pending later calls j with
  | zero => exact ⟨p,rfl⟩
  | succ n ih =>
    have playable : ∀ record ∈ pending ++ later, record.Playable := by
      intro record member
      rw [ahead] at member
      exact all record (List.mem_of_mem_drop member)
    obtain ⟨next,pending',later',got,kept,same,remaining⟩ := plays.get all playable written
    rw [ahead] at got remaining
    obtain ⟨record,j',tail,standing'⟩ := standing_next standing
    rw [record] at got
    rw [← same] at standing'
    obtain ⟨last,rest⟩ := ih kept standing' (remaining.trans tail)
    refine ⟨last,?_⟩
    unfold Player.gets
    rw [got]
    show (next.gets file n >>= _) = _
    rw [rest,same]
    rfl

theorem stored_written {bytes : Text} (whole : payloads records = bytes.map some) : ∃ file : Text, file.map some = stored records := by
  induction records generalizing bytes with
  | nil => exact ⟨[],rfl⟩
  | cons record rest ih =>
    have parts : bytes.map some = record.data ++ payloads rest := whole.symm
    obtain ⟨data,later,rfl,own,others⟩ := List.map_eq_append_iff.mp parts
    obtain ⟨file,written⟩ := ih others.symm
    refine ⟨storeInt64 record.rts ++ data ++ file,?_⟩
    rw [List.map_append,List.map_append,written,own]
    rfl

/-- A file of packets that is rewritten whole comes back from the playout record by record
and in order, with nothing lost or repeated but the filling of the last record; a playout
that loops starts over behind it, and one that does not fails from there on. No time stamp
comes near the end of `int64_t`. -/
theorem playout_returns_file {file : Text} (whole : 188 ∣ file.length)
    (fits : (startBacklog invalidDtsPts).Fits (fileFlags file))
    (enough : file = [] ∨ 7 ≤ ((startBacklog invalidDtsPts).after (fileFlags file)).waiting) :
    ∃ records rts, generateRtsFile invalidDtsPts invalidDtsPts invalidPid 0 file = some records ∧ Complete file records ∧
      rts.map some = stored records ∧ (∀ record ∈ records, record.rts.natAbs ≤ 2 ^ 43) ∧ ∀ loop n, ∃ last,
        (Player.open loop).gets rts n = .ok (last,(List.range n).map (played loop records)) := by
  obtain ⟨records,generated,complete⟩ := (rts_file_complete_iff invalidDtsPts invalidDtsPts invalidPid 0 file whole fits).mpr enough
  have timed := generated_timed invalid_stamp (Nat.zero_le _) fits generated
  have playable : ∀ record ∈ records, record.Playable := fun record member => ⟨complete.full record member,timed record member⟩
  obtain ⟨padding,bytes,_,_⟩ := complete.all
  obtain ⟨rts,written⟩ := stored_written bytes
  refine ⟨records,rts,generated,complete,written,timed,fun loop n => ?_⟩
  have standing : Standing loop records 0 0 := by
    refine ⟨Nat.zero_le _,?_⟩
    split
    · exact .inr rfl
    · exact (Nat.zero_min _).symm
  rw [List.range_eq_range']
  exact (open_plays loop written).gets playable written standing rfl n

/-- Seven null packets are one record, which is played for ever. -/
theorem playout_returns_file_one_record : ∃ records rts, generateRtsFile invalidDtsPts invalidDtsPts invalidPid 0
    (List.replicate 7 samplePacket).flatten = some records ∧ rts.map some = stored records ∧
    ∃ last, (Player.open true).gets rts 3 = .ok (last,(List.range 3).map (played true records)) := by
  obtain ⟨records,rts,generated,_,written,_,plays⟩ := @playout_returns_file (List.replicate 7 samplePacket).flatten
    (by decide +kernel) (by decide +kernel) (Or.inr (by decide +kernel))
  exact ⟨records,rts,generated,written,plays true 3⟩

end Records

end SrtLiveServer.RtsFile
