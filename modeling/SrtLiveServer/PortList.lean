import SrtLiveServer.Common
import SrtLiveServer.Conf
import SrtLiveServer.Template
import Mathlib.Data.List.Forall2

/-! `sls_parse_port_list` against a grammar of port lists. -/
namespace SrtLiveServer.PortList
open Bytes Conf

/-- `ok` is false where there is no result. -/
def slsParseSinglePort (s : Text) : Option Int :=
  if s = [] then none
  else match strtol (cStr s) with
    | some (p,[]) => if p < 1 ∨ 65535 < p then none else some p
    | _ => none

def trimLocal (s : Text) : Text := trimBy isTabOrSpace s

def pushUnique (outPorts : List Int) (port : Int) : List Int := if port ∈ outPorts then outPorts else outPorts ++ [port]

/-- The ports from `lo` to `hi`. -/
def portRange (lo hi : Int) : List Int := (List.range (hi - lo + 1).toNat).map fun (i : Nat) => lo + i

/-- The ports that an entry pushes, none where it ends the call. -/
def parseEntry (tok : Text) : Option (List Int) :=
  match tok.dropWhile (· != byte '-') with
  | [] => (slsParseSinglePort tok).map fun p => [p]
  | _::rest =>
    match slsParseSinglePort (trimLocal (tok.takeWhile (· != byte '-'))),slsParseSinglePort (trimLocal rest) with
    | some lo,some hi => if hi < lo then none else some (portRange lo hi)
    | _,_ => none

def parseTokens : List Int → List Text → Int × List Int
  | outPorts,[] => (outPorts.length,outPorts)
  | outPorts,raw::rest =>
    let tok := trimLocal raw
    if tok = [] then parseTokens outPorts rest
    else match parseEntry tok with
      | none => (-1,outPorts)
      | some ports => parseTokens (ports.foldl pushUnique outPorts) rest

def slsConfStringSplit (str : Text) (delim : UInt8) : List Text := tokens (· == delim) str

/-- The value returned, with `out_ports`. -/
def slsParsePortList (spec : Option Text) : Int × List Int :=
  match spec with
  | none => (0,[])
  | some spec => if cStr spec = [] then (0,[]) else parseTokens [] (slsConfStringSplit (cStr spec) (byte ','))

def decimal (digits : Text) : Int := digits.foldl (fun n d => 10 * n + (d.toNat - 48)) 0

/-- A number with what `strtol` allows in front of it and blanks behind. -/
inductive Port : Text → Int → Prop where
  | mk (spaces plus digits blanks : Text) (lead : ∀ b ∈ spaces, isSpace b) (sign : plus = [] ∨ plus = [byte '+'])
    (nonempty : digits ≠ []) (number : ∀ b ∈ digits, isDigit b) (trail : ∀ b ∈ blanks, isTabOrSpace b)
    (low : 1 ≤ decimal digits) (high : decimal digits ≤ 65535) :
    Port (spaces ++ plus ++ digits ++ blanks) (decimal digits)

inductive Entry : Text → List Int → Prop where
  | single {text : Text} {port : Int} (number : Port text port) : Entry text [port]
  | range {first second : Text} {lo hi : Int} (low : Port first lo) (high : Port second hi) (ordered : lo ≤ hi) :
    Entry (first ++ byte '-'::second) (portRange lo hi)

def Blank (text : Text) : Prop := ∀ b ∈ text, isTabOrSpace b

/-- What an entry between two commas stands for. -/
def Expands (text : Text) (ports : List Int) : Prop := Blank text ∧ ports = [] ∨ ¬ Blank text ∧ Entry text ports

theorem isDigit_range {b : UInt8} (digit : isDigit b = true) : 48 ≤ b.toNat ∧ b.toNat ≤ 57 := by
  have both : byte '0' ≤ b ∧ b ≤ byte '9' := by simpa [isDigit] using digit
  exact ⟨UInt8.le_iff_toNat_le.mp both.1,UInt8.le_iff_toNat_le.mp both.2⟩

theorem isSpace_of_isTabOrSpace {b : UInt8} (blank : isTabOrSpace b = true) : isSpace b = true := by
  have either : b = byte ' ' ∨ b = byte '\t' := by simpa [isTabOrSpace] using blank
  obtain rfl | rfl := either <;> rfl

theorem isSpace_digit {b : UInt8} (digit : isDigit b = true) : isSpace b = false := by
  have range := isDigit_range digit
  apply Bool.eq_false_iff.mpr
  intro space
  have either : b = 0x20 ∨ 0x09 ≤ b ∧ b ≤ 0x0d := by simpa [isSpace] using space
  obtain rfl | ⟨_,high⟩ := either
  · exact absurd digit (by decide)
  · have below : b.toNat ≤ 13 := UInt8.le_iff_toNat_le.mp high
    omega

theorem isTabOrSpace_digit {b : UInt8} (digit : isDigit b = true) : isTabOrSpace b = false := by
  apply Bool.eq_false_iff.mpr
  intro blank
  exact absurd (isSpace_of_isTabOrSpace blank) (Bool.eq_false_iff.mp (isSpace_digit digit))

theorem decimal_nonneg {digits : Text} (number : ∀ b ∈ digits, isDigit b) : 0 ≤ decimal digits := by
  have accumulated : ∀ n : Int, 0 ≤ n → 0 ≤ digits.foldl (fun n d => 10 * n + ((d.toNat : Int) - 48)) n := by
    induction digits with
    | nil => exact fun n low => low
    | cons d rest ih =>
      intro n low
      have range := isDigit_range (number d List.mem_cons_self)
      have next : 0 ≤ 10 * n + ((d.toNat : Int) - 48) := by omega
      exact ih (fun b member => number b (List.mem_cons_of_mem d member)) _ next
  exact accumulated 0 (Int.le_refl 0)

theorem strtol_number {spaces plus digits : Text} (lead : ∀ b ∈ spaces, isSpace b) (sign : plus = [] ∨ plus = [byte '+'])
    (nonempty : digits ≠ []) (number : ∀ b ∈ digits, isDigit b) :
    strtol (spaces ++ plus ++ digits) = some (decimal digits,[]) := by
  obtain ⟨d,rest,rfl⟩ := List.exists_cons_of_ne_nil nonempty
  have first := number d List.mem_cons_self
  have taken : (d::rest).takeWhile isDigit = d::rest := List.takeWhile_eq_self_iff.mpr number
  have dropped : (d::rest).dropWhile isDigit = [] := List.dropWhile_eq_nil_iff.mpr number
  have body : (spaces ++ plus ++ d::rest).dropWhile isSpace = plus ++ d::rest := by
    rw [List.append_assoc,List.dropWhile_append_of_pos lead]
    obtain rfl | rfl := sign
    · exact List.dropWhile_cons_of_neg (Bool.eq_false_iff.mp (isSpace_digit first))
    · rfl
  unfold strtol
  rw [body]
  obtain rfl | rfl := sign
  · have minus : d ≠ byte '-' := by
      rintro rfl
      exact absurd first (by decide)
    have other : d ≠ byte '+' := by
      rintro rfl
      exact absurd first (by decide)
    simp only [List.nil_append,if_neg minus,if_neg other,taken,dropped]
    rfl
  · have plusOnly : byte '+' ≠ byte '-' := by decide
    simp only [List.cons_append,List.nil_append,if_neg plusOnly,if_pos,taken,dropped]
    rfl

theorem strtol_positive {v : Text} {p : Int} (parsed : strtol v = some (p,[])) (positive : 1 ≤ p) :
    ∃ spaces plus digits, v = spaces ++ plus ++ digits ∧ (∀ b ∈ spaces, isSpace b) ∧ (plus = [] ∨ plus = [byte '+']) ∧
      digits ≠ [] ∧ (∀ b ∈ digits, isDigit b) ∧ p = decimal digits := by
  have parts : v = v.takeWhile isSpace ++ v.dropWhile isSpace := List.takeWhile_append_dropWhile.symm
  have lead : ∀ b ∈ v.takeWhile isSpace, isSpace b := fun b member => List.mem_takeWhile_imp member
  unfold strtol at parsed
  generalize v.takeWhile isSpace = spaces at parts lead
  generalize v.dropWhile isSpace = body at parsed parts
  subst parts
  -- the digits are all that is left behind the sign
  have whole : ∀ digits : Text, (if digits.takeWhile isDigit = [] then none else some
        (if false = true then -decimal (digits.takeWhile isDigit) else decimal (digits.takeWhile isDigit),digits.dropWhile isDigit)) =
      some (p,([] : Text)) → digits ≠ [] ∧ (∀ b ∈ digits, isDigit b) ∧ p = decimal digits := by
    intro digits found
    split at found
    · contradiction
    · rename_i nonempty
      obtain ⟨value,ended⟩ := Prod.mk.inj (Option.some.inj found)
      have number : ∀ b ∈ digits, isDigit b := List.dropWhile_eq_nil_iff.mp ended
      rw [List.takeWhile_eq_self_iff.mpr number] at nonempty value
      exact ⟨nonempty,number,value.symm⟩
  cases body with
  | nil => cases parsed
  | cons sign rest =>
    by_cases minus : sign = byte '-'
    · simp only [if_pos minus] at parsed
      split at parsed
      · contradiction
      · have value : -decimal (rest.takeWhile isDigit) = p := (Prod.mk.inj (Option.some.inj parsed)).1
        have nonneg := decimal_nonneg (fun b (member : b ∈ rest.takeWhile isDigit) => List.mem_takeWhile_imp member)
        omega
    · by_cases other : sign = byte '+'
      · simp only [if_neg minus,if_pos other] at parsed
        obtain ⟨nonempty,number,value⟩ := whole rest parsed
        refine ⟨spaces,[byte '+'],rest,?_,lead,Or.inr rfl,nonempty,number,value⟩
        rw [other,List.append_assoc]
        rfl
      · simp only [if_neg minus,if_neg other] at parsed
        obtain ⟨nonempty,number,value⟩ := whole (sign::rest) parsed
        exact ⟨spaces,[],sign::rest,by rw [List.append_nil],lead,Or.inl rfl,nonempty,number,value⟩

theorem slsParseSinglePort_number {spaces plus digits : Text} (lead : ∀ b ∈ spaces, isSpace b)
    (sign : plus = [] ∨ plus = [byte '+']) (nonempty : digits ≠ []) (number : ∀ b ∈ digits, isDigit b)
    (low : 1 ≤ decimal digits) (high : decimal digits ≤ 65535) :
    slsParseSinglePort (spaces ++ plus ++ digits) = some (decimal digits) := by
  have bare : (0 : UInt8) ∉ spaces ++ plus ++ digits := by
    intro member
    rcases List.mem_append.mp member with front | digit
    · rcases List.mem_append.mp front with space | signed
      · exact absurd (lead 0 space) (by decide)
      · obtain rfl | rfl := sign
        · exact absurd signed List.not_mem_nil
        · exact absurd signed (by decide)
    · exact absurd (number 0 digit) (by decide)
  unfold slsParseSinglePort
  rw [if_neg (by
    intro empty
    exact nonempty (List.append_eq_nil_iff.mp empty).2),(cStr_eq_iff _).mpr bare,strtol_number lead sign nonempty number]
  dsimp only
  rw [if_neg (by omega)]

theorem slsParseSinglePort_some {s : Text} {p : Int} (bare : (0 : UInt8) ∉ s) (parsed : slsParseSinglePort s = some p) :
    ∃ spaces plus digits, s = spaces ++ plus ++ digits ∧ (∀ b ∈ spaces, isSpace b) ∧ (plus = [] ∨ plus = [byte '+']) ∧
      digits ≠ [] ∧ (∀ b ∈ digits, isDigit b) ∧ p = decimal digits ∧ 1 ≤ p ∧ p ≤ 65535 := by
  unfold slsParseSinglePort at parsed
  rw [(cStr_eq_iff s).mpr bare] at parsed
  split at parsed
  · contradiction
  · split at parsed
    · rename_i lv found
      split at parsed
      · contradiction
      · have same : lv = p := Option.some.inj parsed
        subst same
        obtain ⟨spaces,plus,digits,rfl,lead,sign,nonempty,number,value⟩ := strtol_positive found (by omega)
        exact ⟨spaces,plus,digits,rfl,lead,sign,nonempty,number,value,by omega,by omega⟩
    · contradiction

theorem trimBy_split (blank : UInt8 → Bool) (text : Text) :
    ∃ lead trail, text = lead ++ trimBy blank text ++ trail ∧ (∀ b ∈ lead, blank b) ∧ ∀ b ∈ trail, blank b := by
  refine ⟨text.takeWhile blank,(text.dropWhile blank).rtakeWhile blank,?_,fun b => List.mem_takeWhile_imp,fun b => List.mem_rtakeWhile_imp⟩
  unfold trimBy
  rw [List.append_assoc,List.rdropWhile_append_rtakeWhile,List.takeWhile_append_dropWhile]

theorem trimBy_core {blank : UInt8 → Bool} {front core trail : Text} (nonempty : core ≠ [])
    (first : blank (core.head nonempty) = false) (last : blank (core.getLast nonempty) = false)
    (behind : ∀ b ∈ trail, blank b) : trimBy blank (front ++ core ++ trail) = front.dropWhile blank ++ core := by
  have kept : (core ++ trail).dropWhile blank = core ++ trail := by
    obtain ⟨x,rest,rfl⟩ := List.exists_cons_of_ne_nil nonempty
    exact List.dropWhile_cons_of_neg (Bool.eq_false_iff.mp first)
  have started : (front ++ core ++ trail).dropWhile blank = front.dropWhile blank ++ core ++ trail := by
    rw [List.append_assoc,List.dropWhile_append]
    split
    · rename_i empty
      rw [kept,List.isEmpty_iff.mp empty,List.nil_append]
    · rw [List.append_assoc]
  have ended : core = core.dropLast ++ [core.getLast nonempty] := (List.dropLast_append_getLast nonempty).symm
  unfold trimBy List.rdropWhile
  rw [started,List.reverse_append,List.dropWhile_append_of_pos (by
    intro b member
    exact behind b (List.mem_reverse.mp member))]
  rw [ended,List.reverse_append,List.reverse_append,List.reverse_singleton,List.singleton_append,List.cons_append,
    List.dropWhile_cons_of_neg (Bool.eq_false_iff.mp last)]
  simp

/-- The texts that `sls_parse_single_port` takes, once trimmed. -/
theorem slsParseSinglePort_iff {s : Text} {p : Int} (bare : (0 : UInt8) ∉ s) :
    slsParseSinglePort (trimLocal s) = some p ↔ Port s p := by
  constructor
  · intro parsed
    obtain ⟨lead,trail,parts,leading,trailing⟩ := trimBy_split isTabOrSpace s
    have inside : (0 : UInt8) ∉ trimLocal s := by
      intro member
      rw [parts] at bare
      exact bare (List.mem_append_left _ (List.mem_append_right _ member))
    obtain ⟨spaces,plus,digits,found,spaced,sign,nonempty,number,rfl,low,high⟩ := slsParseSinglePort_some inside parsed
    have whole : s = (lead ++ spaces) ++ plus ++ digits ++ trail := by
      rw [parts]
      show lead ++ trimLocal s ++ trail = _
      rw [found]
      simp only [List.append_assoc]
    rw [whole]
    refine Port.mk (lead ++ spaces) plus digits trail ?_ sign nonempty number trailing low high
    intro b member
    obtain blank | space := List.mem_append.mp member
    · exact isSpace_of_isTabOrSpace (leading b blank)
    · exact spaced b space
  · rintro ⟨spaces,plus,digits,blanks,lead,sign,nonempty,number,trail,low,high⟩
    have body : plus ++ digits ≠ [] := fun empty => nonempty (List.append_eq_nil_iff.mp empty).2
    have first : isTabOrSpace ((plus ++ digits).head body) = false := by
      obtain rfl | rfl := sign
      · exact isTabOrSpace_digit (number _ (List.head_mem nonempty))
      · rfl
    have last : isTabOrSpace ((plus ++ digits).getLast body) = false := by
      rw [List.getLast_append_of_ne_nil body nonempty]
      exact isTabOrSpace_digit (number _ (List.getLast_mem nonempty))
    have trimmed : trimLocal (spaces ++ plus ++ digits ++ blanks) = spaces.dropWhile isTabOrSpace ++ plus ++ digits := by
      have cut := @trimBy_core isTabOrSpace spaces _ blanks body first last trail
      unfold trimLocal
      rw [List.append_assoc spaces,cut,List.append_assoc]
    rw [trimmed]
    refine slsParseSinglePort_number ?_ sign nonempty number low high
    intro b member
    exact lead b ((List.dropWhile_suffix _).subset member)

section Trim

variable {blank : UInt8 → Bool} {c : UInt8} (stops : blank c = false)
include stops

theorem dropWhile_around (front back : Text) : (front ++ c::back).dropWhile blank = front.dropWhile blank ++ c::back := by
  have kept : (c::back).dropWhile blank = c::back := List.dropWhile_cons_of_neg (Bool.eq_false_iff.mp stops)
  rw [List.dropWhile_append]
  split
  · rename_i empty
    rw [kept,List.isEmpty_iff.mp empty,List.nil_append]
  · rfl

theorem rdropWhile_around (front back : Text) : (front ++ c::back).rdropWhile blank = front ++ c::back.rdropWhile blank := by
  unfold List.rdropWhile
  have turned : (front ++ c::back).reverse = back.reverse ++ c::front.reverse := by
    rw [List.reverse_append,List.reverse_cons,List.append_assoc]
    rfl
  rw [turned,dropWhile_around stops,List.reverse_append,List.reverse_cons,List.reverse_reverse,List.append_assoc]
  rfl

theorem trimBy_around (front back : Text) :
    trimBy blank (front ++ c::back) = front.dropWhile blank ++ c::back.rdropWhile blank := by
  unfold trimBy
  rw [dropWhile_around stops,rdropWhile_around stops]

end Trim

theorem trimBy_dropWhile (blank : UInt8 → Bool) (text : Text) : trimBy blank (text.dropWhile blank) = trimBy blank text := by
  unfold trimBy
  rw [List.dropWhile_idempotent]

theorem trimBy_blank {blank : UInt8 → Bool} {text : Text} (all : ∀ b ∈ text, blank b) : trimBy blank text = [] := by
  unfold trimBy
  rw [List.dropWhile_eq_nil_iff.mpr all]
  rfl

theorem trimBy_rdropWhile (blank : UInt8 → Bool) (text : Text) : trimBy blank (text.rdropWhile blank) = trimBy blank text := by
  by_cases all : ∀ b ∈ text, blank b
  · rw [List.rdropWhile_eq_nil_iff.mpr all,trimBy_blank all]
    rfl
  · obtain ⟨c,member,other⟩ := not_forall₂.mp all
    have stops : blank c = false := Bool.eq_false_iff.mpr other
    obtain ⟨front,back,rfl⟩ := List.append_of_mem member
    rw [rdropWhile_around stops,trimBy_around stops,trimBy_around stops,List.rdropWhile_idempotent]

theorem trimLocal_subset (s : Text) : trimLocal s ⊆ s :=
  fun _ member => (List.dropWhile_suffix _).subset ((List.rdropWhile_prefix _ _).subset member)

theorem trimLocal_eq_nil {s : Text} : trimLocal s = [] ↔ Blank s := by
  constructor
  · intro empty
    obtain ⟨lead,trail,parts,leading,trailing⟩ := trimBy_split isTabOrSpace s
    have cut : trimBy isTabOrSpace s = [] := empty
    rw [cut,List.append_nil] at parts
    intro b member
    rw [parts] at member
    exact (List.mem_append.mp member).elim (leading b) (trailing b)
  · exact trimBy_blank

theorem Port.bare {s : Text} {p : Int} (port : Port s p) : byte '-' ∉ s := by
  obtain ⟨spaces,plus,digits,blanks,lead,sign,_,number,trail,_,_⟩ := port
  intro member
  simp only [List.mem_append] at member
  obtain ((space | signed) | digit) | blank := member
  · exact absurd (lead _ space) (by decide)
  · obtain rfl | rfl := sign
    · exact absurd signed List.not_mem_nil
    · exact absurd signed (by decide)
  · exact absurd (number _ digit) (by decide)
  · exact absurd (trail _ blank) (by decide)

theorem parseEntry_bare {raw : Text} (bare : byte '-' ∉ raw) :
    parseEntry (trimLocal raw) = (slsParseSinglePort (trimLocal raw)).map fun p => [p] := by
  have still : byte '-' ∉ trimLocal raw := fun member => bare (trimLocal_subset raw member)
  have rest : (trimLocal raw).dropWhile (· != byte '-') = [] := List.dropWhile_eq_nil_iff.mpr (bare_all still)
  unfold parseEntry
  rw [rest]

theorem parseEntry_dash {front back : Text} (bare : byte '-' ∉ front) :
    parseEntry (trimLocal (front ++ byte '-'::back)) =
      match slsParseSinglePort (trimLocal front),slsParseSinglePort (trimLocal back) with
      | some lo,some hi => if hi < lo then none else some (portRange lo hi)
      | _,_ => none := by
  have dash : isTabOrSpace (byte '-') = false := rfl
  have still : byte '-' ∉ front.dropWhile isTabOrSpace := fun member => bare ((List.dropWhile_suffix _).subset member)
  have trimmed : trimLocal (front ++ byte '-'::back) = front.dropWhile isTabOrSpace ++ byte '-'::back.rdropWhile isTabOrSpace :=
    trimBy_around dash front back
  have rest : (front.dropWhile isTabOrSpace ++ byte '-'::back.rdropWhile isTabOrSpace).dropWhile (· != byte '-') =
      byte '-'::back.rdropWhile isTabOrSpace := by
    rw [List.dropWhile_append_of_pos (bare_all still),List.dropWhile_cons_of_neg (by simp)]
  have first : trimLocal (front.dropWhile isTabOrSpace) = trimLocal front := trimBy_dropWhile isTabOrSpace front
  have second : trimLocal (back.rdropWhile isTabOrSpace) = trimLocal back := trimBy_rdropWhile isTabOrSpace back
  unfold parseEntry
  rw [trimmed,rest,takeWhile_separator still]
  dsimp only
  rw [first,second]

theorem parseEntry_iff {raw : Text} (bare : (0 : UInt8) ∉ raw) {ports : List Int} :
    parseEntry (trimLocal raw) = some ports ↔ Entry raw ports := by
  by_cases dash : byte '-' ∈ raw
  · obtain ⟨front,back,rfl,first⟩ := List.eq_append_cons_of_mem dash
    have bareFront : (0 : UInt8) ∉ front := fun member => bare (List.mem_append_left _ member)
    have bareBack : (0 : UInt8) ∉ back := fun member => bare (List.mem_append_right _ (List.mem_cons_of_mem _ member))
    rw [parseEntry_dash first]
    constructor
    · intro parsed
      split at parsed
      · rename_i lo hi low high
        split at parsed
        · contradiction
        · rename_i ordered
          cases parsed
          exact Entry.range ((slsParseSinglePort_iff bareFront).mp low) ((slsParseSinglePort_iff bareBack).mp high)
            (Int.not_lt.mp ordered)
      · contradiction
    · intro entry
      generalize split : front ++ byte '-'::back = text at entry
      cases entry with
      | single number =>
        rw [← split] at number
        exact absurd dash number.bare
      | @range front' back' lo hi low high ordered =>
        have same : front = front' := by
          rw [← takeWhile_separator first back,split,takeWhile_separator low.bare back']
        subst same
        have rest : back = back' := (List.cons.inj (List.append_cancel_left split)).2
        subst rest
        rw [(slsParseSinglePort_iff bareFront).mpr low,(slsParseSinglePort_iff bareBack).mpr high]
        exact if_neg (Int.not_lt.mpr ordered)
  · rw [parseEntry_bare dash]
    constructor
    · intro parsed
      obtain ⟨p,found,rfl⟩ := Option.map_eq_some_iff.mp parsed
      exact Entry.single ((slsParseSinglePort_iff bare).mp found)
    · rintro (⟨port⟩ | ⟨_,_,_⟩)
      · rw [(slsParseSinglePort_iff bare).mpr port]
        rfl
      · exact absurd (List.mem_append_right _ List.mem_cons_self) dash

theorem pushUnique_eraseDups (ports : List Int) (port : Int) :
    pushUnique ports.eraseDups port = (ports ++ [port]).eraseDups := by
  unfold pushUnique
  rw [List.eraseDups_append]
  split
  · rename_i present
    have gone : [port].removeAll ports = [] := by
      simp [List.removeAll,List.mem_eraseDups.mp present]
    rw [gone,List.eraseDups_nil,List.append_nil]
  · rename_i absent
    have other : port ∉ ports := fun member => absent (List.mem_eraseDups.mpr member)
    have kept : [port].removeAll ports = [port] := by
      simp [List.removeAll,other]
    rw [kept]
    rfl

theorem foldl_pushUnique (before ports : List Int) :
    ports.foldl pushUnique before.eraseDups = (before ++ ports).eraseDups := by
  induction ports generalizing before with
  | nil =>
    rw [List.append_nil]
    rfl
  | cons port rest ih =>
    rw [List.foldl_cons,pushUnique_eraseDups,ih,List.append_assoc]
    rfl

theorem nodup_eraseDups (ports : List Int) : ports.eraseDups.Nodup := by
  induction ports using List.reverseRecOn with
  | nil => exact List.nodup_nil
  | append_singleton before port ih =>
    rw [← pushUnique_eraseDups]
    unfold pushUnique
    split
    · exact ih
    · rename_i absent
      exact List.nodup_append.mpr ⟨ih,List.nodup_singleton port,fun a member b last same =>
        absent (List.mem_singleton.mp last ▸ same ▸ member)⟩

theorem parseTokens_expands {before : List Int} {entries : List Text} {expansions : List (List Int)}
    (bare : ∀ entry ∈ entries, (0 : UInt8) ∉ entry) (all : List.Forall₂ Expands entries expansions) :
    parseTokens before.eraseDups entries =
      (((before ++ expansions.flatten).eraseDups.length : Int),(before ++ expansions.flatten).eraseDups) := by
  induction all generalizing before with
  | nil =>
    rw [List.flatten_nil,List.append_nil]
    rfl
  | @cons entry ports entries expansions expands rest ih =>
    have later := fun more => @ih more fun other member => bare other (List.mem_cons_of_mem _ member)
    unfold parseTokens
    dsimp only
    rw [List.flatten_cons,← List.append_assoc]
    obtain ⟨blank,rfl⟩ | ⟨filled,stands⟩ := expands
    · rw [if_pos (trimLocal_eq_nil.mpr blank),List.append_nil]
      exact later before
    · have shown : trimLocal entry ≠ [] := fun empty => filled (trimLocal_eq_nil.mp empty)
      rw [if_neg shown,(parseEntry_iff (bare entry List.mem_cons_self)).mpr stands]
      dsimp only
      rw [foldl_pushUnique]
      exact later (before ++ ports)

theorem parseTokens_fails {entries : List Text} (bare : ∀ entry ∈ entries, (0 : UInt8) ∉ entry) (outPorts : List Int)
    {entry : Text} (member : entry ∈ entries) (fails : ∀ ports, ¬ Expands entry ports) :
    (parseTokens outPorts entries).1 = -1 := by
  induction entries generalizing outPorts with
  | nil => cases member
  | cons first rest ih =>
    have later := fun more present => ih (fun other member => bare other (List.mem_cons_of_mem _ member)) more present
    unfold parseTokens
    dsimp only
    by_cases blank : trimLocal first = []
    · rw [if_pos blank]
      obtain rfl | present := List.mem_cons.mp member
      · exact absurd (Or.inl ⟨trimLocal_eq_nil.mp blank,rfl⟩) (fails [])
      · exact later outPorts present
    · rw [if_neg blank]
      cases parsed : parseEntry (trimLocal first) with
      | none => rfl
      | some ports =>
        obtain rfl | present := List.mem_cons.mp member
        · have entry := (parseEntry_iff (bare entry List.mem_cons_self)).mp parsed
          exact absurd (Or.inr ⟨fun all => blank (trimLocal_eq_nil.mpr all),entry⟩) (fails ports)
        · exact later _ present

theorem parseTokens_filter (outPorts : List Int) (entries : List Text) :
    parseTokens outPorts (entries.filter fun entry => !entry.isEmpty) = parseTokens outPorts entries := by
  induction entries generalizing outPorts with
  | nil => rfl
  | cons first rest ih =>
    cases first with
    | nil => exact ih outPorts
    | cons b more =>
      rw [List.filter_cons_of_pos rfl]
      unfold parseTokens
      dsimp only
      split
      · exact ih outPorts
      · split
        · rfl
        · exact ih _

theorem portRange_range {lo hi port : Int} (member : port ∈ portRange lo hi) : lo ≤ port ∧ port ≤ hi := by
  obtain ⟨i,bound,rfl⟩ := List.mem_map.mp member
  rw [List.mem_range] at bound
  omega

theorem Port.range {s : Text} {p : Int} (port : Port s p) : 1 ≤ p ∧ p ≤ 65535 := by
  obtain ⟨_,_,_,_,_,_,_,_,_,low,high⟩ := port
  exact ⟨low,high⟩

theorem Expands.range {entry : Text} {ports : List Int} (expands : Expands entry ports) :
    ∀ port ∈ ports, 1 ≤ port ∧ port ≤ 65535 := by
  intro port member
  obtain ⟨_,rfl⟩ | ⟨_,stands⟩ := expands
  · cases member
  · cases stands with
    | single number =>
      rw [List.mem_singleton.mp member]
      exact number.range
    | range low high _ =>
      have inside := portRange_range member
      have lower := low.range
      have upper := high.range
      omega

/-- The entries of the list. -/
def entries (spec : Text) : List Text := (cStr spec).splitOn (byte ',')

theorem entries_bare (spec : Text) : ∀ entry ∈ entries spec, (0 : UInt8) ∉ entry := by
  intro entry member nul
  have inside := (@Template.mem_splitOnP _ (· == byte ',') (cStr spec) 0).mp
    ⟨entry,List.splitOn_eq_splitOnP (x := byte ',') ▸ member,nul⟩
  have nonzero := List.mem_takeWhile_imp inside.1
  exact absurd nonzero (by decide)

theorem expansions_of_each {texts : List Text} (each : ∀ entry ∈ texts, ∃ ports, Expands entry ports) :
    ∃ expansions, List.Forall₂ Expands texts expansions := by
  induction texts with
  | nil => exact ⟨[],List.Forall₂.nil⟩
  | cons entry rest ih =>
    obtain ⟨ports,expands⟩ := each entry List.mem_cons_self
    obtain ⟨expansions,all⟩ := ih fun other member => each other (List.mem_cons_of_mem entry member)
    exact ⟨ports::expansions,List.Forall₂.cons expands all⟩

theorem expansions_range {texts : List Text} {expansions : List (List Int)} (all : List.Forall₂ Expands texts expansions) :
    ∀ port ∈ expansions.flatten, 1 ≤ port ∧ port ≤ 65535 := by
  induction all with
  | nil => exact fun port member => nomatch member
  | cons expands _ ih =>
    intro port member
    rw [List.flatten_cons] at member
    exact (List.mem_append.mp member).elim (expands.range port) (ih port)

theorem slsParsePortList_entries (spec : Text) : slsParsePortList (some spec) = parseTokens [] (entries spec) := by
  unfold slsParsePortList entries
  dsimp only
  split
  · rename_i empty
    rw [empty]
    rfl
  · unfold slsConfStringSplit tokens
    rw [parseTokens_filter,List.splitOn_eq_splitOnP]

/-- The list is refused exactly if one of its entries is neither blank nor a port nor a
range of ports, and else stands for the ports of its entries in their order, each once. -/
theorem port_list_grammar (spec : Text) :
    ((slsParsePortList (some spec)).1 = -1 ↔ ∃ entry ∈ entries spec, ¬ Blank entry ∧ ∀ ports, ¬ Entry entry ports) ∧
      ((slsParsePortList (some spec)).1 ≠ -1 → ∃ expansions, List.Forall₂ Expands (entries spec) expansions ∧
        (slsParsePortList (some spec)).2 = expansions.flatten.eraseDups ∧
        (∀ port ∈ (slsParsePortList (some spec)).2, 1 ≤ port ∧ port ≤ 65535) ∧
        (slsParsePortList (some spec)).2.Nodup ∧
        (slsParsePortList (some spec)).1 = (slsParsePortList (some spec)).2.length) := by
  have bare := entries_bare spec
  rw [slsParsePortList_entries]
  by_cases wrong : ∃ entry ∈ entries spec, ∀ ports, ¬ Expands entry ports
  · obtain ⟨entry,member,fails⟩ := wrong
    have failed := parseTokens_fails bare [] member fails
    refine ⟨⟨fun _ => ⟨entry,member,fun blank => fails [] (Or.inl ⟨blank,rfl⟩),fun ports stands => ?_⟩,fun _ => failed⟩,fun ok => absurd failed ok⟩
    by_cases blank : Blank entry
    · exact fails [] (Or.inl ⟨blank,rfl⟩)
    · exact fails ports (Or.inr ⟨blank,stands⟩)
  · have each : ∀ entry ∈ entries spec, ∃ ports, Expands entry ports := by
      intro entry member
      by_contra nothing
      exact wrong ⟨entry,member,not_exists.mp nothing⟩
    obtain ⟨expansions,all⟩ := expansions_of_each each
    have parsed := @parseTokens_expands [] _ _ bare all
    rw [List.eraseDups_nil,List.nil_append] at parsed
    have accepted : (parseTokens [] (entries spec)).1 ≠ -1 := by
      rw [parsed]
      dsimp only
      omega
    refine ⟨⟨fun failed => absurd failed accepted,?_⟩,fun _ => ⟨expansions,all,?_⟩⟩
    · rintro ⟨entry,member,filled,fails⟩
      obtain ⟨ports,⟨blank,_⟩ | ⟨_,stands⟩⟩ := each entry member
      · exact absurd blank filled
      · exact absurd stands (fails ports)
    · rw [parsed]
      exact ⟨rfl,fun port member => expansions_range all port (List.mem_eraseDups.mp member),nodup_eraseDups _,rfl⟩

example : slsParsePortList (some (ascii "8001, 8000 - 8002,,")) = (3,[8001,8000,8002]) := by decide

end SrtLiveServer.PortList
