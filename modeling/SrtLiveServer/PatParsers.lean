import Mathlib.Data.List.GetD
import SrtLiveServer.TimecodeRoundTrip
import SrtLiveServer.TsPacket

/-! The two parsers of a program association table, over one packet that holds the
whole section. -/
namespace SrtLiveServer.PatParsers
open Bytes Checked TsPacket

structure Program where
  number : Fin (2 ^ 16)
  reserved : Fin (2 ^ 3)
  pid : Fin (2 ^ 13)

/-- A program number and a PID. -/
abbrev Entry : Type := Nat × Nat

def Program.entry (p : Program) : Entry := (p.number,p.pid)

def Program.bytes (p : Program) : Text :=
  [UInt8.ofNat (p.number / 256),UInt8.ofNat (p.number % 256),UInt8.ofNat (p.reserved * 32 + p.pid / 256),
    UInt8.ofNat (p.pid % 256)]

/-- `flags` are the four bits in front of the length, `header` what stands between it
and the programs. -/
structure PatSection where
  flags : Fin (2 ^ 4)
  header : Text
  programs : List Program
  crc : Text
  headerSize : header.length = 5
  crcSize : crc.length = 4

def PatSection.sectionLength (s : PatSection) : Nat := 9 + 4 * s.programs.length

def PatSection.front (s : PatSection) : Text :=
  [0x00,UInt8.ofNat (s.flags * 16 + s.sectionLength / 256),UInt8.ofNat (s.sectionLength % 256)] ++ s.header

def PatSection.table (s : PatSection) : Text := s.front ++ s.programs.flatMap Program.bytes

def PatSection.bytes (s : PatSection) : Text := s.table ++ s.crc

/-- The section begins behind `pointer_field` and the bytes this skips. -/
structure PatPacket where
  bytes : Text
  filler : Text
  sect : PatSection
  stuffing : Text
  isPacket : Timecode.IsPacket bytes 0 true (UInt8.ofNat filler.length::(filler ++ (sect.bytes ++ stuffing)))

def entries : Text → List Entry
  | a::b::c::d::rest => (a.toNat * 256 + b.toNat,c.toNat % 32 * 256 + d.toNat)::entries rest
  | _ => []

/-- The table that begins with these bytes. -/
def tableAt (buffer : Text) : List Entry :=
  let sectionLength := (buffer.getD 1 0).toNat % 16 * 256 + (buffer.getD 2 0).toNat
  let limit := min (sectionLength - 12) (buffer.length - 11)
  entries ((buffer.drop 8).take (4 * ((limit + 3) / 4)))

/-- Entry 0 is the network PID, not a program. -/
def programPids (table : List Entry) : List Nat := (table.filter fun entry => entry.1 ≠ 0).map Prod.snd

def TsInfo.afterTable (ti : TsInfo) (table : List Entry) : TsInfo :=
  table.foldl (fun ti entry => if entry.1 = 0 then ti else {ti with pmtPid := entry.2}) ti

theorem afterTable_pmtPid (ti : TsInfo) (table : List Entry) :
    (TsInfo.afterTable ti table).pmtPid = ((programPids table).getLast?.map Int.ofNat).getD ti.pmtPid := by
  unfold TsInfo.afterTable
  induction table generalizing ti with
  | nil => rfl
  | cons entry rest ih =>
    rw [List.foldl_cons,ih]
    unfold programPids
    by_cases network : entry.1 = 0
    · rw [if_pos network,List.filter_cons_of_neg (by simpa using network)]
    · rw [if_neg network,List.filter_cons_of_pos (by simpa using network),List.map_cons,List.getLast?_cons]
      cases ((rest.filter fun entry => entry.1 ≠ 0).map Prod.snd).getLast? <;> rfl

theorem entries_program (p : Program) (rest : Text) : entries (p.bytes ++ rest) = p.entry::entries rest := by
  have number := p.number.isLt
  have reserved := p.reserved.isLt
  have pid := p.pid.isLt
  show (_,_)::entries rest = _
  unfold Program.entry
  simp only [UInt8.toNat_ofNat']
  congr 2
  · omega
  · omega

theorem entries_programs (programs : List Program) : entries (programs.flatMap Program.bytes) = programs.map Program.entry := by
  induction programs with
  | nil => rfl
  | cons p rest ih => rw [List.flatMap_cons,entries_program,ih,List.map_cons]

theorem programs_length (programs : List Program) : (programs.flatMap Program.bytes).length = 4 * programs.length := by
  induction programs with
  | nil => rfl
  | cons p rest ih =>
    rw [List.flatMap_cons,List.length_append,ih,List.length_cons]
    show 4 + 4 * rest.length = _
    omega

theorem window_tail {array : Text} {offset : Nat} {a : UInt8} {rest : Text}
    (inside : offset < array.length) (cut : window array offset (array.length - offset) = .ok (a::rest)) :
    window array (offset + 1) (array.length - (offset + 1)) = .ok rest := by
  rw [window_eq (by omega)] at cut ⊢
  rw [List.take_of_length_le (by rw [List.length_drop])] at cut ⊢
  rw [← List.drop_drop,Except.ok.inj cut,List.drop_succ_cons,List.drop_zero]

section Walk

theorem entry_at {buffer : Text} {q : Nat} (inside : q + 4 ≤ buffer.length) :
    ∃ a b c d, buffer.drop q = a::b::c::d::buffer.drop (q + 4) ∧
      Timecode.wordAt buffer q 256 = .ok (a.toNat * 256 + b.toNat) ∧
      Timecode.wordAt buffer (q + 2) 32 = .ok (c.toNat % 32 * 256 + d.toNat) := by
  have first : q < buffer.length := by omega
  have second : q + 1 < buffer.length := by omega
  have third : q + 2 < buffer.length := by omega
  have fourth : q + 3 < buffer.length := by omega
  refine ⟨buffer[q],buffer[q + 1],buffer[q + 2],buffer[q + 3],?_,?_,?_⟩
  · rw [List.drop_eq_getElem_cons first,List.drop_eq_getElem_cons second,List.drop_eq_getElem_cons third,
      List.drop_eq_getElem_cons fourth]
  · have small : buffer[q].toNat % 256 = buffer[q].toNat := Nat.mod_eq_of_lt buffer[q].toNat_lt
    rw [Timecode.wordAt,readAt_eq first,readAt_eq second,ok_bind,ok_bind,small]
    rfl
  · rw [Timecode.wordAt,readAt_eq third,readAt_eq fourth,ok_bind,ok_bind]
    rfl

/-- The loop of `sls_parse_pat` sets the PID at every program. -/
theorem patFrom_entries (buffer : Text) (progEnd : Int) (inside : progEnd.toNat ≤ buffer.length - 11) (bound n : Nat)
    (ti : TsInfo) (enough : progEnd.toNat + 4 ≤ 4 * bound + n) (some : 0 < bound) :
    TsPacket.patFrom buffer progEnd bound n ti =
      .ok (TsInfo.afterTable ti (entries ((buffer.drop (8 + n)).take (4 * ((progEnd.toNat - n + 3) / 4))))) := by
  induction bound generalizing n ti with
  | zero => omega
  | succ bound ih =>
    rw [TsPacket.patFrom]
    by_cases more : (n : Int) < progEnd
    · obtain ⟨a,b,c,d,split,number,pid⟩ := @entry_at buffer (8 + n) (by omega)
      have shift : 8 + n + 2 = 10 + n := by omega
      have count : 4 * ((progEnd.toNat - n + 3) / 4) = 4 * ((progEnd.toNat - (n + 4) + 3) / 4) + 4 := by omega
      have next : 8 + n + 4 = 8 + (n + 4) := by omega
      rw [shift] at pid
      rw [if_pos more,number,ok_bind,pid,ok_bind,ih (n + 4) _ (by omega) (by omega),split,count,next]
      rfl
    · have none : 4 * ((progEnd.toNat - n + 3) / 4) = 0 := by omega
      rw [if_neg more,none,List.take_zero]
      rfl

theorem slsParsePat_table {buffer : Text} (long : 8 ≤ buffer.length) (ti : TsInfo) :
    slsParsePat buffer ti = .ok (slsOk,TsInfo.afterTable ti (tableAt buffer)) := by
  have second : 1 < buffer.length := by omega
  have third : 2 < buffer.length := by omega
  have word : Timecode.wordAt buffer 1 16 = .ok ((buffer.getD 1 0).toNat % 16 * 256 + (buffer.getD 2 0).toNat) := by
    rw [Timecode.wordAt,readAt_eq second,readAt_eq third,ok_bind,ok_bind,List.getD_eq_getElem _ _ second,
      List.getD_eq_getElem _ _ third]
    rfl
  unfold slsParsePat tableAt
  rw [if_neg (by omega),word,ok_bind]
  dsimp only
  generalize (buffer.getD 1 0).toNat % 16 * 256 + (buffer.getD 2 0).toNat = sectionLength
  have limit : (if (buffer.length : Int) - 11 < (sectionLength : Int) - 12 then (buffer.length : Int) - 11
      else (sectionLength : Int) - 12).toNat = min (sectionLength - 12) (buffer.length - 11) := by
    split <;> omega
  rw [patFrom_entries buffer _ (by rw [limit]; omega) _ _ _ (by rw [limit]; omega) (by omega),limit]
  rfl

/-- The loop of `parse_pat` stops at the first program. -/
theorem patFrom_first (programs : List Program) (front : Text) (st : Timecode.State) (bound : Nat)
    (enough : programs.length < bound) :
    Timecode.patFrom (front ++ programs.flatMap Program.bytes) st bound front.length =
      .ok (st.afterPat (programPids (programs.map Program.entry)).head?) := by
  induction programs generalizing front bound with
  | nil =>
    obtain ⟨bound,rfl⟩ : ∃ n, bound = n + 1 := ⟨bound - 1,by omega⟩
    rw [Timecode.patFrom,if_neg (by simp)]
    rfl
  | cons p rest ih =>
    obtain ⟨bound,rfl⟩ : ∃ n, bound = n + 1 := ⟨bound - 1,by omega⟩
    have length : (front ++ (p::rest).flatMap Program.bytes).length = front.length + 4 * (rest.length + 1) := by
      rw [List.length_append,programs_length,List.length_cons]
    obtain ⟨a,b,c,d,split,number,pid⟩ := @entry_at (front ++ (p::rest).flatMap Program.bytes) front.length (by omega)
    have read : entries ((front ++ (p::rest).flatMap Program.bytes).drop front.length) = p.entry::rest.map Program.entry := by
      rw [List.drop_left,List.flatMap_cons,entries_program,entries_programs]
    rw [split] at read
    have own : (a.toNat * 256 + b.toNat,c.toNat % 32 * 256 + d.toNat) = p.entry := (List.cons.inj read).1
    have own' : a.toNat * 256 + b.toNat = p.entry.1 ∧ c.toNat % 32 * 256 + d.toNat = p.entry.2 := by
      rw [← own]
      exact ⟨rfl,rfl⟩
    rw [own'.1] at number
    rw [own'.2] at pid
    have later := ih (front ++ p.bytes) bound (by simp only [List.length_cons] at enough; omega)
    have shape : front ++ (p::rest).flatMap Program.bytes = front ++ p.bytes ++ rest.flatMap Program.bytes := by
      rw [List.flatMap_cons,List.append_assoc]
    have size : (front ++ p.bytes).length = front.length + 4 := by rw [List.length_append]; rfl
    rw [size,← shape] at later
    rw [Timecode.patFrom,if_pos (by omega),number,ok_bind]
    unfold programPids at later ⊢
    by_cases network : p.entry.1 = 0
    · rw [if_pos network,later,List.map_cons,List.filter_cons_of_neg (by simpa using network)]
    · rw [if_neg network,pid,ok_bind,List.map_cons,List.filter_cons_of_pos (by simpa using network)]
      rfl

end Walk

section Packet

variable (packet : PatPacket)

/-- What stands behind `pointer_field`. -/
def PatPacket.behind : Text := packet.filler ++ (packet.sect.bytes ++ packet.stuffing)

theorem PatSection.front_length (s : PatSection) : s.front.length = 8 := by
  unfold PatSection.front
  rw [List.length_append,s.headerSize]
  rfl

theorem PatSection.table_length (s : PatSection) : s.table.length = 8 + 4 * s.programs.length := by
  unfold PatSection.table
  rw [List.length_append,programs_length,s.front_length]

theorem PatSection.bytes_length (s : PatSection) : s.bytes.length = 12 + 4 * s.programs.length := by
  unfold PatSection.bytes
  rw [List.length_append,s.table_length,s.crcSize]
  omega

theorem PatPacket.short : packet.behind.length < 184 := by
  obtain ⟨b1,b2,b3,field,shape,whole,_⟩ := packet.isPacket
  rw [shape] at whole
  simp only [List.length_cons,List.length_append] at whole
  unfold PatPacket.behind
  simp only [List.length_append]
  omega

theorem PatPacket.section_short : 12 + 4 * packet.sect.programs.length + packet.filler.length < 184 := by
  have short := packet.short
  unfold PatPacket.behind at short
  rw [List.length_append,List.length_append,packet.sect.bytes_length] at short
  omega

theorem psiSection_whole {tableId : UInt8} {filler body crc stuffing : Text} {flags sectionLength : Nat} (short : filler.length < 256)
    (size : sectionLength = body.length + 4) (long : 5 ≤ body.length) (fits : sectionLength < 2 ^ 12) (crcSize : crc.length = 4) :
    Timecode.psiSection (UInt8.ofNat filler.length::(filler ++ (((tableId::UInt8.ofNat (flags * 16 + sectionLength / 256)::
      UInt8.ofNat (sectionLength % 256)::body) ++ crc) ++ stuffing))) tableId =
      .ok (some (tableId::UInt8.ofNat (flags * 16 + sectionLength / 256)::UInt8.ofNat (sectionLength % 256)::body)) := by
  generalize isTable : tableId::UInt8.ofNat (flags * 16 + sectionLength / 256)::UInt8.ofNat (sectionLength % 256)::body = table
  have tableSize : table.length = body.length + 3 := by rw [← isTable]; rfl
  generalize isBehind : filler ++ ((table ++ crc) ++ stuffing) = behind
  have total : behind.length = filler.length + (table.length + crc.length + stuffing.length) := by
    rw [← isBehind,List.length_append,List.length_append,List.length_append]
  have pointer : (UInt8.ofNat filler.length).toNat = filler.length := UInt8.toNat_ofNat_of_lt' short
  have cut : window (UInt8.ofNat filler.length::behind) (1 + filler.length)
      ((UInt8.ofNat filler.length::behind).length - (1 + filler.length)) = .ok ((table ++ crc) ++ stuffing) := by
    have found := window_rest (UInt8.ofNat filler.length::filler) ((table ++ crc) ++ stuffing)
    have start : (UInt8.ofNat filler.length::filler).length = 1 + filler.length := by
      rw [List.length_cons]
      omega
    rw [start] at found
    rw [← isBehind]
    exact found
  have word : Timecode.wordAt ((table ++ crc) ++ stuffing) 1 16 = .ok sectionLength := by
    rw [← isTable]
    show Except.ok _ = _
    simp only [UInt8.toNat_ofNat']
    congr 1
    omega
  have taken : window ((table ++ crc) ++ stuffing) 0 (3 + sectionLength - 4) = .ok table := by
    have found := window_append [] table (crc ++ stuffing)
    have length : table.length = 3 + sectionLength - 4 := by omega
    rw [length] at found
    rw [List.append_assoc]
    exact found
  have pointerRead : readAt (UInt8.ofNat filler.length::behind) 0 = .ok (UInt8.ofNat filler.length) := rfl
  have idRead : readAt ((table ++ crc) ++ stuffing) 0 = .ok tableId := by rw [← isTable]; rfl
  unfold Timecode.psiSection
  rw [if_neg (by simp),pointerRead,ok_bind]
  dsimp only
  rw [pointer,if_neg (by rw [List.length_cons]; omega),cut,ok_bind,idRead,ok_bind,if_neg (not_not.mpr rfl),word,ok_bind,
    if_neg (by rw [List.length_append,List.length_append]; omega),taken]
  rfl

theorem psiSection_table :
    Timecode.psiSection (UInt8.ofNat packet.filler.length::packet.behind) 0 = .ok (some packet.sect.table) := by
  have short := packet.section_short
  have sectionSize : packet.sect.sectionLength = 9 + 4 * packet.sect.programs.length := rfl
  have header := packet.sect.headerSize
  have size : (packet.sect.header ++ packet.sect.programs.flatMap Program.bytes).length = 5 + 4 * packet.sect.programs.length := by
    rw [List.length_append,programs_length,header]
  exact @psiSection_whole 0 packet.filler (packet.sect.header ++ packet.sect.programs.flatMap Program.bytes) packet.sect.crc packet.stuffing
    packet.sect.flags packet.sect.sectionLength (by omega) (by omega) (by omega) (by omega) packet.sect.crcSize

theorem parsePat_first (st : Timecode.State) :
    Timecode.parsePat (UInt8.ofNat packet.filler.length::packet.behind) st =
      .ok (st.afterPat (programPids (packet.sect.programs.map Program.entry)).head?) := by
  have first := patFrom_first packet.sect.programs packet.sect.front st (packet.sect.table.length + 1)
    (by rw [packet.sect.table_length]; omega)
  rw [packet.sect.front_length] at first
  unfold Timecode.parsePat
  rw [psiSection_table packet,ok_bind]
  exact first

theorem slsParseTsInfo_table (ti : TsInfo) :
    slsParseTsInfo packet.bytes ti = .ok (slsOk,TsInfo.afterTable ti (tableAt packet.behind)) := by
  obtain ⟨b1,b3,b4,start,header⟩ := packet.isPacket.header
  have unitStart : b1 &&& 0x40 ≠ 0 := by
    have table : ∀ n < 256, n / 64 % 2 = 1 → UInt8.ofNat n &&& 0x40 ≠ 0 := by decide +kernel
    have here := table b1.toNat b1.toNat_lt (header.unitStart.mp rfl)
    rw [UInt8.ofNat_toNat] at here
    exact here
  have whole := packet.isPacket.short.2
  have control := header.control
  have total : start + (packet.behind.length + 1) = 188 := header.total
  have long : 8 ≤ packet.behind.length := by
    unfold PatPacket.behind
    rw [List.length_append,List.length_append,packet.sect.bytes_length]
    omega
  have cut : window packet.bytes (start + 1) (tsPackLen - (start + 1)) = .ok packet.behind := by
    have payload := header.cut
    rw [← whole] at payload
    have rest := window_tail (by omega) payload
    rw [whole] at rest
    exact rest
  have behind : (if b3.toNat / 16 % 4 / 2 = 1 then 4 + (b4.toNat + 1) else 4) = start := by
    rw [Nat.add_comm b4.toNat]
    exact header.behind
  have fits : ¬ (tsPackLen ≤ start ∨ b3.toNat / 16 % 4 % 2 ≠ 1) := by
    show ¬ (188 ≤ start ∨ _)
    omega
  unfold slsParseTsInfo
  rw [if_neg (by rw [whole]; decide),header.sync,ok_bind,if_neg (by decide),header.second,ok_bind,if_neg unitStart,header.word,
    ok_bind,if_neg (by simp),if_neg (by simp),header.fourth,ok_bind]
  dsimp only
  rw [if_neg (by omega),header.fifth,ok_bind,behind,if_neg fits,if_pos rfl,cut,ok_bind,slsParsePat_table long]

theorem scanPacket_first (st : Timecode.State) : Timecode.scanPacket packet.bytes st =
    .ok (st.afterPat (programPids (packet.sect.programs.map Program.entry)).head?,0) := by
  rw [Timecode.scanPacket_own packet.isPacket (by decide) st]
  unfold Timecode.route
  rw [if_pos rfl,if_pos rfl]
  show (Timecode.parsePat (UInt8.ofNat packet.filler.length::packet.behind) st >>= fun st => pure (st,0)) = _
  rw [parsePat_first packet st]
  rfl

theorem afterPat_pmtPid (st : Timecode.State) (pid : Option Nat) :
    (st.afterPat pid).pmtPid = (pid.map Int.ofNat).getD st.pmtPid := by
  cases pid with
  | none => rfl
  | some pid =>
    show (if (pid : Int) ≠ st.pmtPid then st.newProgram pid else st).pmtPid = pid
    split
    · rfl
    · rename_i same
      exact (not_not.mp same).symm

theorem pid_injective {pid other : Option Nat}
    (same : (pid.map Int.ofNat).getD invalidPid = (other.map Int.ofNat).getD invalidPid) : pid = other := by
  cases pid with
  | none =>
    cases other with
    | none => rfl
    | some other => cases same
  | some pid =>
    cases other with
    | none => cases same
    | some other => exact congrArg some (Int.ofNat.inj same)

theorem tableAt_aligned (aligned : packet.filler = []) :
    tableAt packet.behind = packet.sect.programs.map Program.entry := by
  have short := packet.section_short
  have size : packet.behind.length = 12 + 4 * packet.sect.programs.length + packet.stuffing.length := by
    unfold PatPacket.behind
    rw [aligned,List.nil_append,List.length_append,packet.sect.bytes_length]
  have flags := packet.sect.flags.isLt
  have sectionLength : (packet.behind.getD 1 0).toNat % 16 * 256 + (packet.behind.getD 2 0).toNat =
      9 + 4 * packet.sect.programs.length := by
    unfold PatPacket.behind
    rw [aligned]
    show (UInt8.ofNat (packet.sect.flags * 16 + (9 + 4 * packet.sect.programs.length) / 256)).toNat % 16 * 256 +
      (UInt8.ofNat ((9 + 4 * packet.sect.programs.length) % 256)).toNat = _
    simp only [UInt8.toNat_ofNat']
    omega
  have count : 4 * ((min (9 + 4 * packet.sect.programs.length - 12) (packet.behind.length - 11) + 3) / 4) =
      (packet.sect.programs.flatMap Program.bytes).length := by
    rw [programs_length,size]
    omega
  unfold tableAt
  rw [sectionLength]
  dsimp only
  rw [count]
  have shape : packet.behind = packet.sect.front ++ (packet.sect.programs.flatMap Program.bytes ++
      (packet.sect.crc ++ packet.stuffing)) := by
    unfold PatPacket.behind PatSection.bytes PatSection.table
    rw [aligned,List.nil_append,List.append_assoc,List.append_assoc]
  rw [shape,List.drop_left' packet.sect.front_length,List.take_left,entries_programs]

end Packet

/-- Both parsers accept the packet. They name the same PMT PID, whatever they knew before,
if and only if the last program of the table that seems to begin behind `pointer_field`
has the PID of the section's first program. -/
theorem pat_parsers_agree_iff (packet : PatPacket) :
    ((∀ (ti : TsInfo) (st : Timecode.State), ti.pmtPid = st.pmtPid →
      ∃ ti' st', slsParseTsInfo packet.bytes ti = .ok (slsOk,ti') ∧ Timecode.scanPacket packet.bytes st = .ok (st',0) ∧
        ti'.pmtPid = st'.pmtPid) ↔
      (programPids (tableAt packet.behind)).getLast? = (programPids (packet.sect.programs.map Program.entry)).head?) ∧
    (packet.filler = [] → tableAt packet.behind = packet.sect.programs.map Program.entry) := by
  refine ⟨⟨fun agree => ?_,fun same ti st common => ?_⟩,tableAt_aligned packet⟩
  · obtain ⟨ti',st',parsed,scan,equal⟩ := agree slsInitTsInfo .init rfl
    rw [slsParseTsInfo_table] at parsed
    rw [scanPacket_first] at scan
    cases parsed
    cases scan
    rw [afterTable_pmtPid,afterPat_pmtPid] at equal
    exact pid_injective equal
  · refine ⟨_,_,slsParseTsInfo_table packet ti,scanPacket_first packet st,?_⟩
    rw [afterTable_pmtPid,afterPat_pmtPid,same,common]

def twoPrograms : PatPacket where
  filler := []
  sect := ⟨⟨0xB,by decide⟩,[0x00,0x01,0xC1,0x00,0x00],[⟨⟨1,by decide⟩,⟨7,by decide⟩,⟨0x100,by decide⟩⟩,
    ⟨⟨2,by decide⟩,⟨7,by decide⟩,⟨0x101,by decide⟩⟩],[0,0,0,0],rfl,rfl⟩
  stuffing := List.replicate 163 0xFF
  bytes := [0x47,0x40,0x00,0x10] ++ ([0x00] ++ ([0x00,0xB0,0x11,0x00,0x01,0xC1,0x00,0x00,0x00,0x01,0xE1,0x00,0x00,0x02,
    0xE1,0x01,0,0,0,0] ++ List.replicate 163 0xFF))
  isPacket := ⟨0x40,0x00,0x10,[],rfl,rfl,List.cons_ne_nil _ _,by decide,rfl,by decide,.inl ⟨rfl,rfl⟩⟩

theorem pat_parsers_differ :
    ¬ ∀ (packet : PatPacket) (ti : TsInfo) (st : Timecode.State), ti.pmtPid = st.pmtPid →
      ∃ ti' st', slsParseTsInfo packet.bytes ti = .ok (slsOk,ti') ∧ Timecode.scanPacket packet.bytes st = .ok (st',0) ∧
        ti'.pmtPid = st'.pmtPid := by
  intro claim
  obtain ⟨ti',st',parsed,scanned,same⟩ := claim twoPrograms slsInitTsInfo .init rfl
  have last : (slsParseTsInfo twoPrograms.bytes slsInitTsInfo).toOption.map (·.2.pmtPid) = some 0x101 := by decide +kernel
  have first : (Timecode.scanPacket twoPrograms.bytes .init).toOption.map (·.1.pmtPid) = some 0x100 := by decide +kernel
  rw [parsed] at last
  rw [scanned] at first
  have first' : some st'.pmtPid = some (0x100 : Int) := first
  rw [← same] at first'
  cases first'.symm.trans last

end SrtLiveServer.PatParsers
