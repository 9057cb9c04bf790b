import SrtLiveServer.Template
import SrtLiveServer.RelayUrl

/-! The push URL that is dialed against the instance of its template that
`validate_push_url` parsed. Both are the template with its `{stream_name}` tokens
filled, so they are compared part by part as fillings of one text with holes. -/
namespace SrtLiveServer.PushTarget
open Bytes PushUrl RelayUrl Template

structure UrlParts (α : Type) where
  scheme : List α
  host : List α
  port : List α
  query : List (List α × List α)

section Splitting

variable {α : Type} (is : Char → α → Bool)

def body (url : List α) : List α := url.takeWhile fun a => !is '#' a

def authority (url : List α) : List α :=
  (((after (is ':') url).drop 2).takeWhile fun a => !is '/' a).takeWhile fun a => !is '?' a

def pieces (url : List α) : List (List α) := ((after (is '?') url).splitOnP (is '&')).filter fun piece => !piece.isEmpty

def item (piece : List α) : List α × List α := (piece.takeWhile fun a => !is '=' a,after (is '=') piece)

/-- Standard splitting at `://`, `:`, `/`, `?`, `&` and `=`, over any alphabet that
has these characters. -/
def splitUrl (url : List α) : UrlParts α where
  scheme := (body is url).takeWhile fun a => !is ':' a
  host := (authority is (body is url)).takeWhile fun a => !is ':' a
  port := after (is ':') (authority is (body is url))
  query := (pieces is (body is url)).map (item is)

end Splitting

def isByte (c : Char) (b : UInt8) : Bool := b == byte c

/-- A hole is no character. -/
def isPart (c : Char) (part : Option UInt8) : Bool := part.any (isByte c)

def partsFrom (token : Text) : Nat → Text → List (Option UInt8)
  | _,[] => []
  | skip + 1,_::rest => partsFrom token skip rest
  | 0,b::rest =>
    if token.isPrefixOf (b::rest) then none::partsFrom token (token.length - 1) rest
    else some b::partsFrom token 0 rest

def parts (template : Text) : List (Option UInt8) := partsFrom streamNameToken 0 template

theorem fill_partsFrom (token name : Text) (skip : Nat) (template : Text) :
    fill name (partsFrom token skip template) = substituteFrom token name skip template := by
  induction template generalizing skip with
  | nil => cases skip <;> rfl
  | cons b rest ih =>
    cases skip with
    | succ skip => exact ih skip
    | zero =>
      rw [partsFrom,substituteFrom]
      split
      · rw [fill_cons_none,ih]
      · rw [fill_cons_some,ih]

theorem fill_parts (template name : Text) : fill name (parts template) = slsSubstituteStreamName template name :=
  fill_partsFrom streamNameToken name 0 template

theorem cStr_cons {b : UInt8} (other : b ≠ 0) (rest : Text) : cStr (b::rest) = b::cStr rest := by simp [cStr,other]

theorem isPrefixOf_cStr {token : Text} (clean : (0 : UInt8) ∉ token) (text : Text) :
    token.isPrefixOf (cStr text) = token.isPrefixOf text := by
  induction token generalizing text with
  | nil => simp
  | cons t token ih =>
    cases text with
    | nil => rfl
    | cons b rest =>
      have other : t ≠ 0 := fun zero => clean (zero ▸ List.mem_cons_self)
      have inner := ih (fun member => clean (List.mem_cons_of_mem t member)) rest
      by_cases zero : b = 0
      · subst zero
        rw [List.isPrefixOf_cons_cons,beq_false_of_ne other]
        rfl
      · rw [cStr_cons zero,List.isPrefixOf_cons_cons,List.isPrefixOf_cons_cons,inner]

theorem partsFrom_cStr {first : UInt8} {more : Text} (clean : (0 : UInt8) ∉ first::more) (skip : Nat) (text : Text)
    (inside : (0 : UInt8) ∉ text.take skip) :
    partsFrom (first::more) skip (cStr text) =
      (partsFrom (first::more) skip text).takeWhile fun part => part != some 0 := by
  induction text generalizing skip with
  | nil => cases skip <;> rfl
  | cons b rest ih =>
    cases skip with
    | succ skip =>
      have other : b ≠ 0 := fun zero => inside (zero ▸ List.mem_cons_self)
      rw [cStr_cons other]
      exact ih skip fun member => inside (List.mem_cons_of_mem b member)
    | zero =>
      rw [partsFrom]
      split
      · rename_i occurs
        obtain ⟨tail,split⟩ := List.isPrefixOf_iff_prefix.mp occurs
        obtain ⟨rfl,rfl⟩ := List.cons.inj split
        have other : first ≠ 0 := fun zero => clean (zero ▸ List.mem_cons_self)
        have remaining : (0 : UInt8) ∉ (more ++ tail).take more.length := by
          rw [List.take_left]
          exact fun member => clean (List.mem_cons_of_mem first member)
        rw [← isPrefixOf_cStr clean,cStr_cons other] at occurs
        rw [cStr_cons other,partsFrom,if_pos occurs,List.takeWhile_cons_of_pos (by simp)]
        exact congrArg _ (ih _ remaining)
      · rename_i differs
        by_cases zero : b = 0
        · subst zero
          simp [cStr,partsFrom]
        · rw [← isPrefixOf_cStr clean,cStr_cons zero] at differs
          rw [cStr_cons zero,partsFrom,if_neg differs,List.takeWhile_cons_of_pos (by simp [zero])]
          exact congrArg _ (ih 0 (by simp))

theorem parts_cStr (template : Text) : parts (cStr template) = (parts template).takeWhile fun part => part != some 0 :=
  partsFrom_cStr (by decide) 0 template (by simp)

theorem parts_cons {b : UInt8} (literal : b ≠ byte '\x7b') (rest : Text) : parts (b::rest) = some b::parts rest := by
  have differs : ¬ streamNameToken.isPrefixOf (b::rest) = true := by
    intro occurs
    obtain ⟨_,split⟩ := List.isPrefixOf_iff_prefix.mp occurs
    exact literal (List.cons.inj split).1.symm
  rw [parts,partsFrom,if_neg differs]
  rfl

theorem parts_some {template : Text} {b : UInt8} {more : List (Option UInt8)} (split : parts template = some b::more) :
    ∃ rest, template = b::rest ∧ parts rest = more := by
  cases template with
  | nil => cases split
  | cons a rest =>
    rw [parts,partsFrom] at split
    split at split
    · cases split
    · obtain ⟨same,rest'⟩ := List.cons.inj split
      cases same
      exact ⟨rest,rfl,rest'⟩

def Clear (value : Text) : Prop := ∀ c ∈ [':','/','?','#','&','='], ∀ b ∈ value, isByte c b = false

def fillParts (value : Text) (url : UrlParts (Option UInt8)) : UrlParts UInt8 where
  scheme := fill value url.scheme
  host := fill value url.host
  port := fill value url.port
  query := url.query.map fun entry => (fill value entry.1,fill value entry.2)

section Filling

variable {value : Text} (clear : Clear value)

include clear

theorem body_fill (url : List (Option UInt8)) : body isByte (fill value url) = fill value (body isPart url) :=
  fill_takeWhile (clear '#' (by decide)) url

theorem authority_fill {url : List (Option UInt8)} (slashes : none ∉ (after (isPart ':') url).take 2) :
    authority isByte (fill value url) = fill value (authority isPart url) := by
  have behind : after (isByte ':') (fill value url) = fill value (after (isPart ':') url) :=
    fill_after (clear ':' (by decide)) url
  unfold authority
  rw [behind,fill_drop value 2 _ slashes,fill_takeWhile (clear '/' (by decide)),fill_takeWhile (clear '?' (by decide))]
  rfl

theorem item_fill (piece : List (Option UInt8)) :
    item isByte (fill value piece) = (fill value (item isPart piece).1,fill value (item isPart piece).2) :=
  Prod.ext (fill_takeWhile (clear '=' (by decide)) piece) (fill_after (clear '=' (by decide)) piece)

/-- A piece of nothing but holes vanishes when they are filled with nothing. -/
theorem pieces_fill (url : List (Option UInt8)) :
    pieces isByte (fill value url) = ((pieces isPart url).map (fill value)).filter fun piece => !piece.isEmpty := by
  have behind : after (isByte '?') (fill value url) = fill value (after (isPart '?') url) :=
    fill_after (clear '?' (by decide)) url
  have split : (fill value (after (isPart '?') url)).splitOnP (isByte '&') =
      ((after (isPart '?') url).splitOnP (isPart '&')).map (fill value) := fill_splitOnP (clear '&' (by decide)) _
  unfold pieces
  rw [behind,split,List.filter_map,List.filter_map,List.filter_filter]
  congr 2
  funext piece
  cases piece <;> simp

theorem query_fill {url : List (Option UInt8)} (kept : ∀ piece ∈ pieces isPart url, fill value piece ≠ []) :
    (pieces isByte (fill value url)).map (item isByte) =
      ((pieces isPart url).map (item isPart)).map fun entry => (fill value entry.1,fill value entry.2) := by
  have all : ((pieces isPart url).map (fill value)).filter (fun piece => !piece.isEmpty) =
      (pieces isPart url).map (fill value) := by
    rw [List.filter_eq_self]
    intro piece member
    obtain ⟨part,isPiece,rfl⟩ := List.mem_map.mp member
    simpa using kept part isPiece
  rw [pieces_fill clear,all,List.map_map,List.map_map]
  exact List.map_congr_left fun piece _ => item_fill clear piece

theorem splitUrl_fill {url : List (Option UInt8)} (slashes : none ∉ (after (isPart ':') (body isPart url)).take 2)
    (kept : ∀ piece ∈ pieces isPart (body isPart url), fill value piece ≠ []) :
    splitUrl isByte (fill value url) = fillParts value (splitUrl isPart url) := by
  unfold splitUrl fillParts
  dsimp only
  rw [body_fill clear,authority_fill clear slashes,query_fill clear kept]
  congr 1
  · exact fill_takeWhile (clear ':' (by decide)) _
  · exact fill_takeWhile (clear ':' (by decide)) _
  · exact fill_after (clear ':' (by decide)) _

end Filling

theorem urlEncode_bytes {name : Text} {b : UInt8} (member : b ∈ urlEncode name) : isUnreserved b = true ∨ b = byte '%' := by
  have digits : ∀ n < 16, isUnreserved (hexDigit n) = true := by decide
  obtain ⟨a,_,inside⟩ := List.mem_flatMap.mp member
  split at inside
  · rename_i plain
    rw [List.mem_singleton.mp inside]
    exact .inl plain
  · have bound : a.toNat < 256 := a.toNat_lt
    simp only [List.mem_cons,List.not_mem_nil,or_false] at inside
    obtain rfl | rfl | rfl := inside
    · exact .inr rfl
    · exact .inl (digits _ (by omega))
    · exact .inl (digits _ (by omega))

theorem clear_streamname : Clear (ascii "streamname") := by
  have checked : [':','/','?','#','&','='].all (fun c => (ascii "streamname").all fun b => !isByte c b) = true := by decide
  intro c isSep b member
  have inner := List.all_eq_true.mp (List.all_eq_true.mp checked c isSep) b member
  simpa using inner

theorem clear_urlEncode (name : Text) : Clear (urlEncode name) := by
  have checked : [':','/','?','#','&','='].all (fun c => !isUnreserved (byte c) && byte c != byte '%') = true := by decide
  intro c isSep b member
  have reserved : isUnreserved (byte c) = false ∧ byte c ≠ byte '%' := by
    simpa using List.all_eq_true.mp checked c isSep
  cases same : isByte c b with
  | false => rfl
  | true =>
    obtain rfl : b = byte c := eq_of_beq same
    obtain plain | percent := urlEncode_bytes member
    · rw [reserved.1] at plain
      cases plain
    · exact absurd percent reserved.2

theorem urlEncode_clean (name : Text) : (0 : UInt8) ∉ urlEncode name := by
  intro member
  obtain plain | percent := urlEncode_bytes member
  · revert plain
    decide
  · revert percent
    decide

theorem urlEncode_plain {name : Text} (plain : byte '%' ∉ urlEncode name) : urlEncode name = name := by
  induction name with
  | nil => rfl
  | cons b rest ih =>
    unfold urlEncode at plain ih ⊢
    rw [List.flatMap_cons] at plain ⊢
    rw [ih fun member => plain (List.mem_append_right _ member)]
    split
    · rfl
    · rename_i escaped
      rw [if_neg escaped] at plain
      exact absurd (List.mem_append_left _ List.mem_cons_self) plain

theorem urlEncode_streamname_iff (name : Text) : ascii "streamname" = urlEncode name ↔ name = ascii "streamname" := by
  constructor
  · intro same
    have plain : byte '%' ∉ urlEncode name := by
      rw [← same]
      decide
    rw [same,urlEncode_plain plain]
  · rintro rfl
    decide

theorem fill_ne_nil {value : Text} (nonempty : value ≠ []) {piece : List (Option UInt8)} (full : piece ≠ []) :
    fill value piece ≠ [] := by
  cases piece with
  | nil => exact absurd rfl full
  | cons part rest => cases part <;> simp [nonempty]

theorem pieces_ne_nil {α : Type} {is : Char → α → Bool} {url piece : List α} (member : piece ∈ pieces is url) : piece ≠ [] := by
  have full := (List.mem_filter.mp member).2
  simpa using full

/-- What `Url` reads is the standard splitting of the text, up to a decoding of the
pieces; it throws on some texts. -/
structure StandardSplitting (lib : CxxUrl) (decode : Text → Text) : Prop where
  scheme : ∀ text scheme, lib.scheme text = some scheme →
    (ascii "//").isPrefixOf (after (isByte ':') (body isByte text)) = true ∧ scheme = decode (splitUrl isByte text).scheme
  host : ∀ text host, lib.host text = some host → host = decode (splitUrl isByte text).host
  port : ∀ text port, lib.port text = some port → port = decode (splitUrl isByte text).port
  query : ∀ text query, lib.query text = some query →
    query = (splitUrl isByte text).query.map fun entry => (decode entry.1,decode entry.2)

/-- Scheme, host, port and query keys are those of the vetted instance, and the values
are the template's, with the respective name at the tokens. -/
def SameTarget (template name dialed : Text) : Prop :=
  let vetted := splitUrl isByte (slsSubstituteStreamName template (ascii "streamname"))
  let dialed := splitUrl isByte dialed
  let values := (splitUrl isPart (parts template)).query.map Prod.snd
  vetted.scheme = dialed.scheme ∧ vetted.host = dialed.host ∧ vetted.port = dialed.port ∧
    vetted.query.map Prod.fst = dialed.query.map Prod.fst ∧
    vetted.query.map Prod.snd = values.map (fill (ascii "streamname")) ∧
    dialed.query.map Prod.snd = values.map (fill (urlEncode name))

/-- The tokens stand in the path, the query values and the fragment only. -/
def TokensInValues (url : UrlParts (Option UInt8)) : Prop :=
  none ∉ url.host ∧ none ∉ url.port ∧ ∀ entry ∈ url.query, none ∉ entry.1

def Confined (template name : Text) : Prop :=
  (ascii "srt://").isPrefixOf template = true ∧ some 0 ∉ body isPart (parts template) ∧
    (name = ascii "streamname" ∨ TokensInValues (splitUrl isPart (parts template)))

theorem vetted_query (template : Text) :
    (splitUrl isByte (slsSubstituteStreamName template (ascii "streamname"))).query =
      (splitUrl isPart (parts template)).query.map fun entry =>
        (fill (ascii "streamname") entry.1,fill (ascii "streamname") entry.2) := by
  rw [← fill_parts]
  unfold splitUrl
  dsimp only
  rw [body_fill clear_streamname]
  exact query_fill clear_streamname fun piece member => fill_ne_nil (by decide) (pieces_ne_nil member)

theorem parts_srt {template : Text} (srt : (ascii "srt://").isPrefixOf template = true) :
    ∃ rest, template = ascii "srt://" ++ rest ∧ parts template = (ascii "srt://").map some ++ parts rest := by
  obtain ⟨rest,rfl⟩ := List.isPrefixOf_iff_prefix.mp srt
  refine ⟨rest,rfl,?_⟩
  show parts (byte 's'::byte 'r'::byte 't'::byte ':'::byte '/'::byte '/'::rest) = _
  rw [parts_cons (by decide),parts_cons (by decide),parts_cons (by decide),parts_cons (by decide),parts_cons (by decide),
    parts_cons (by decide)]
  rfl

/-- Literal text of the vetted instance that is no beginning of a filled token is
literal text of the template. -/
theorem literal_begins {b : UInt8} {text : Text} {template : List (Option UInt8)} (other : b ≠ byte 's')
    (starts : b::text <+: fill (ascii "streamname") template) :
    ∃ rest, template = some b::rest ∧ text <+: fill (ascii "streamname") rest := by
  cases template with
  | nil => exact absurd (List.eq_nil_of_prefix_nil starts) (List.cons_ne_nil _ _)
  | cons part rest =>
    cases part with
    | none => exact absurd (List.cons_prefix_cons.mp starts).1 other
    | some a =>
      obtain ⟨same,inner⟩ := List.cons_prefix_cons.mp starts
      exact ⟨rest,by rw [same],inner⟩

theorem srt_begins {template : Text} (starts : ascii "srt://" <+: slsSubstituteStreamName template (ascii "streamname")) :
    (ascii "srt://").isPrefixOf template = true := by
  rw [← fill_parts] at starts
  replace starts : [byte 's',byte 'r',byte 't',byte ':',byte '/',byte '/'] <+: fill (ascii "streamname") (parts template) :=
    starts
  have first : ∃ rest, parts template = some (byte 's')::rest ∧
      [byte 'r',byte 't',byte ':',byte '/',byte '/'] <+: fill (ascii "streamname") rest := by
    cases split : parts template with
    | nil =>
      rw [split] at starts
      exact absurd (List.eq_nil_of_prefix_nil starts) (List.cons_ne_nil _ _)
    | cons part rest =>
      rw [split] at starts
      cases part with
      | none =>
        have second := (List.cons_prefix_cons.mp (List.cons_prefix_cons.mp starts).2).1
        exact absurd second (by decide)
      | some a =>
        obtain ⟨same,inner⟩ := List.cons_prefix_cons.mp starts
        exact ⟨rest,by rw [same],inner⟩
  obtain ⟨rest1,is1,starts1⟩ := first
  obtain ⟨rest2,rfl,starts2⟩ := literal_begins (by decide) starts1
  obtain ⟨rest3,rfl,starts3⟩ := literal_begins (by decide) starts2
  obtain ⟨rest4,rfl,starts4⟩ := literal_begins (by decide) starts3
  obtain ⟨rest5,rfl,starts5⟩ := literal_begins (by decide) starts4
  obtain ⟨rest6,rfl,_⟩ := literal_begins (by decide) starts5
  obtain ⟨text1,rfl,is2⟩ := parts_some is1
  obtain ⟨text2,rfl,is3⟩ := parts_some is2
  obtain ⟨text3,rfl,is4⟩ := parts_some is3
  obtain ⟨text4,rfl,is5⟩ := parts_some is4
  obtain ⟨text5,rfl,is6⟩ := parts_some is5
  obtain ⟨text6,rfl,_⟩ := parts_some is6
  exact List.isPrefixOf_iff_prefix.mpr ⟨text6,rfl⟩

theorem starts_of_scheme {text : Text} (separated : (ascii "//").isPrefixOf (after (isByte ':') (body isByte text)) = true)
    (scheme : (splitUrl isByte text).scheme = ascii "srt") : ascii "srt://" <+: text := by
  obtain ⟨rest,split⟩ := List.isPrefixOf_iff_prefix.mp separated
  have whole := List.takeWhile_append_dropWhile (p := fun b => !isByte ':' b) (l := body isByte text)
  rw [show (body isByte text).takeWhile (fun b => !isByte ':' b) = ascii "srt" from scheme] at whole
  unfold after at split
  have within : ascii "srt://" <+: body isByte text := by
    cases behind : (body isByte text).dropWhile fun b => !isByte ':' b with
    | nil =>
      rw [behind] at split
      cases split
    | cons c more =>
      rw [behind] at split whole
      have colon : c = byte ':' := by
        have stops := List.head_dropWhile_not (fun b => !isByte ':' b) (l := body isByte text) (by rw [behind]; simp)
        simp only [behind,List.head_cons] at stops
        simpa [isByte] using stops
      have isMore : more = ascii "//" ++ rest := split.symm
      exact ⟨rest,by rw [← whole,colon,isMore]; rfl⟩
  exact within.trans (List.takeWhile_prefix _)

theorem connectUrl_eq {template name url : Text} (dials : connectUrl template name = some url) :
    url = (if (ascii "srt://").isPrefixOf template then [] else ascii "srt://") ++
      fill (urlEncode name) ((parts template).takeWhile fun part => part != some 0) := by
  unfold connectUrl at dials
  dsimp only at dials
  rw [isPrefixOf_cStr (by decide),← fill_parts,parts_cStr] at dials
  by_cases srt : (ascii "srt://").isPrefixOf template = true
  · rw [if_pos srt] at dials ⊢
    split at dials
    · exact (Option.some.inj dials).symm
    · cases dials
  · rw [if_neg srt] at dials ⊢
    split at dials
    · exact (Option.some.inj dials).symm
    · cases dials

theorem body_takeWhile (url : List (Option UInt8)) :
    body isPart (url.takeWhile fun part => part != some 0) = (body isPart url).takeWhile fun part => part != some 0 := by
  unfold body
  rw [List.takeWhile_takeWhile,List.takeWhile_takeWhile]
  congr 1
  funext part
  exact decide_eq_decide.mpr and_comm

theorem body_clean {url : List (Option UInt8)} (clean : some 0 ∉ body isPart url) :
    body isPart (url.takeWhile fun part => part != some 0) = body isPart url := by
  rw [body_takeWhile,List.takeWhile_eq_self_iff]
  intro part member
  have other : part ≠ some 0 := fun zero => clean (zero ▸ member)
  simpa using other

theorem mem_query {α : Type} {is : Char → α → Bool} {url : List α} {entry : List α × List α}
    (isEntry : entry ∈ (splitUrl is url).query) {a : α} (inside : a ∈ entry.1 ∨ a ∈ entry.2) : a ∈ url := by
  obtain ⟨piece,isPiece,rfl⟩ := List.mem_map.mp isEntry
  have inPiece : a ∈ piece := inside.elim (fun key => List.takeWhile_subset _ key) mem_after
  have inQuery := ((mem_splitOnP _ a).mp ⟨piece,(List.mem_filter.mp isPiece).1,inPiece⟩).1
  exact List.takeWhile_subset _ (mem_after inQuery)

theorem mem_query_of_mem {url : List (Option UInt8)} {b : UInt8} (other : isByte '&' b = false ∧ isByte '=' b = false)
    (member : some b ∈ after (isPart '?') (body isPart url)) :
    ∃ entry ∈ (splitUrl isPart url).query, some b ∈ entry.1 ∨ some b ∈ entry.2 := by
  have split : ∃ piece ∈ (after (isPart '?') (body isPart url)).splitOnP (isPart '&'), some b ∈ piece :=
    (mem_splitOnP _ (some b)).mpr ⟨member,other.1⟩
  obtain ⟨piece,isPiece,inside⟩ := split
  have full : piece ≠ [] := List.ne_nil_of_mem inside
  have isPiece' : piece ∈ pieces isPart (body isPart url) := List.mem_filter.mpr ⟨isPiece,by simpa using full⟩
  refine ⟨item isPart piece,List.mem_map_of_mem isPiece',?_⟩
  rw [← List.takeWhile_append_dropWhile (p := fun part => !isPart '=' part) (l := piece),List.mem_append] at inside
  refine inside.imp id fun behind => ?_
  -- the part behind the key starts with the sign itself
  unfold item after
  dsimp only
  cases split : piece.dropWhile fun part => !isPart '=' part with
  | nil =>
    rw [split] at behind
    cases behind
  | cons sign rest =>
    rw [split] at behind
    have stops := List.head_dropWhile_not (fun part => !isPart '=' part) (l := piece) (by rw [split]; simp)
    simp only [split,List.head_cons] at stops
    obtain rfl | later := List.mem_cons.mp behind
    · simp [isPart,other.2] at stops
    · exact later

theorem clean_of_same {template name url : Text} (same : SameTarget template name url)
    (isUrl : url = fill (urlEncode name) ((parts template).takeWhile fun part => part != some 0))
    (asked : (splitUrl isPart (parts template)).query ≠ []) : some 0 ∉ body isPart (parts template) := by
  intro nul
  obtain ⟨_,_,_,keys,_,values⟩ := same
  rw [vetted_query] at keys
  have clean : (0 : UInt8) ∉ url := by
    rw [isUrl,mem_fill]
    rintro (literal | ⟨_,inName⟩)
    · simpa using List.mem_takeWhile_imp literal
    · exact urlEncode_clean name inName
  have front := List.takeWhile_append_dropWhile (p := fun part => part != some 0) (l := body isPart (parts template))
  by_cases query : ∃ part ∈ (body isPart (parts template)).takeWhile (fun part => part != some 0), isPart '?' part = true
  · -- the NUL is in the query, in a key or in a value
    have within : some 0 ∈ after (isPart '?') (body isPart (parts template)) := by
      rw [← front,after_append query]
      refine List.mem_append_right _ ?_
      have split := nul
      rw [← front,List.mem_append] at split
      refine split.resolve_left fun before => ?_
      simpa using List.mem_takeWhile_imp before
    obtain ⟨entry,isEntry,inside⟩ := mem_query_of_mem (by decide) within
    rcases inside with inKey | inValue
    · have filled : fill (ascii "streamname") entry.1 ∈ (splitUrl isByte url).query.map Prod.fst := by
        rw [← keys,List.map_map]
        exact List.mem_map_of_mem (f := fun entry => fill (ascii "streamname") entry.1) isEntry
      obtain ⟨dialed,isDialed,isKey⟩ := List.mem_map.mp filled
      refine clean (mem_query isDialed (.inl ?_))
      rw [isKey]
      exact (mem_fill _ _ _).mpr (.inl inKey)
    · have filled : fill (urlEncode name) entry.2 ∈ (splitUrl isByte url).query.map Prod.snd := by
        rw [values]
        exact List.mem_map_of_mem (List.mem_map_of_mem isEntry)
      obtain ⟨dialed,isDialed,isValue⟩ := List.mem_map.mp filled
      refine clean (mem_query isDialed (.inr ?_))
      rw [isValue]
      exact (mem_fill _ _ _).mpr (.inl inValue)
  · -- the NUL cuts the query off
    have none : (splitUrl isByte url).query = [] := by
      unfold splitUrl pieces
      dsimp only
      rw [isUrl,body_fill (clear_urlEncode name),body_takeWhile]
      have gone : after (isPart '?') ((body isPart (parts template)).takeWhile fun part => part != some 0) = [] := by
        refine after_eq_nil fun part member => ?_
        simpa using fun isMark => query ⟨part,member,isMark⟩
      have behind : after (isByte '?') (fill (urlEncode name)
          ((body isPart (parts template)).takeWhile fun part => part != some 0)) = [] := by
        have filled := fill_after (clear_urlEncode name '?' (by decide))
          ((body isPart (parts template)).takeWhile fun part => part != some 0)
        rw [filled]
        exact congrArg (fill (urlEncode name)) gone
      rw [behind]
      rfl
    rw [none] at keys
    exact asked (by simpa using keys)

theorem splitUrl_body {α : Type} {is : Char → α → Bool} {url other : List α} (same : body is url = body is other) :
    splitUrl is url = splitUrl is other := by
  unfold splitUrl
  rw [same]

theorem srt_slashes {template : Text} (srt : (ascii "srt://").isPrefixOf template = true) :
    none ∉ (after (isPart ':') (body isPart (parts template))).take 2 := by
  obtain ⟨rest,_,split⟩ := parts_srt srt
  rw [split]
  have behind : after (isPart ':') (body isPart ((ascii "srt://").map some ++ parts rest)) =
      some (byte '/')::some (byte '/')::body isPart (parts rest) := rfl
  rw [behind]
  simp

theorem vetted_parts {template : Text} (srt : (ascii "srt://").isPrefixOf template = true) :
    splitUrl isByte (slsSubstituteStreamName template (ascii "streamname")) =
      fillParts (ascii "streamname") (splitUrl isPart (parts template)) := by
  rw [← fill_parts]
  exact splitUrl_fill clear_streamname (srt_slashes srt)
    fun piece member => fill_ne_nil (by decide) (pieces_ne_nil member)

theorem kept_of_tokens {template : Text} (name : Text) (tokens : TokensInValues (splitUrl isPart (parts template))) :
    ∀ piece ∈ pieces isPart (body isPart (parts template)), fill (urlEncode name) piece ≠ [] := by
  intro piece member empty
  have full := pieces_ne_nil member
  have closed := tokens.2.2 _ (List.mem_map_of_mem member)
  cases piece with
  | nil => exact full rfl
  | cons part rest =>
    cases part with
    | some b => cases empty
    | none =>
      -- a piece that starts with a token has it in its key
      refine closed ?_
      unfold item
      rw [List.takeWhile_cons_of_pos rfl]
      exact List.mem_cons_self

section Dialed

variable {template name url : Text} (srt : (ascii "srt://").isPrefixOf template = true)
  (isUrl : url = fill (urlEncode name) ((parts template).takeWhile fun part => part != some 0))
  (clean : some 0 ∉ body isPart (parts template))

include isUrl clean

include srt in
theorem dialed_parts (kept : ∀ piece ∈ pieces isPart (body isPart (parts template)), fill (urlEncode name) piece ≠ []) :
    splitUrl isByte url = fillParts (urlEncode name) (splitUrl isPart (parts template)) := by
  have same := body_clean clean
  rw [isUrl,← splitUrl_body same]
  refine splitUrl_fill (clear_urlEncode name) ?_ ?_
  · rw [same]
    exact srt_slashes srt
  · rw [same]
    exact kept

theorem dialed_kept (same : SameTarget template name url) :
    ∀ piece ∈ pieces isPart (body isPart (parts template)), fill (urlEncode name) piece ≠ [] := by
  obtain ⟨_,_,_,keys,_,_⟩ := same
  have lengths := congrArg List.length keys
  rw [vetted_query,isUrl] at lengths
  unfold splitUrl at lengths
  simp only [List.length_map] at lengths
  rw [body_fill (clear_urlEncode name),body_clean clean,pieces_fill (clear_urlEncode name)] at lengths
  have all := List.length_filter_eq_length_iff.mp (lengths.symm.trans (List.length_map _).symm)
  intro piece member
  have full := all _ (List.mem_map_of_mem member)
  simpa using full

include srt in
theorem tokens_of_same (same : SameTarget template name url) (other : ascii "streamname" ≠ urlEncode name) :
    TokensInValues (splitUrl isPart (parts template)) := by
  have dialed := dialed_parts srt isUrl clean (dialed_kept isUrl clean same)
  obtain ⟨_,host,port,keys,_,_⟩ := same
  rw [vetted_parts srt,dialed] at host port keys
  refine ⟨((fill_eq_iff _ _ _).mp host).resolve_right other,((fill_eq_iff _ _ _).mp port).resolve_right other,?_⟩
  simp only [fillParts,List.map_map] at keys
  intro entry member
  have key := List.map_eq_map_iff.mp keys entry member
  exact ((fill_eq_iff _ _ _).mp key).resolve_right other

include srt in
theorem same_of_confined (confined : name = ascii "streamname" ∨ TokensInValues (splitUrl isPart (parts template))) :
    SameTarget template name url := by
  have kept : ∀ piece ∈ pieces isPart (body isPart (parts template)), fill (urlEncode name) piece ≠ [] := by
    obtain named | tokens := confined
    · rw [← (urlEncode_streamname_iff name).mpr named]
      exact fun piece member => fill_ne_nil (by decide) (pieces_ne_nil member)
    · exact kept_of_tokens name tokens
  have filled : ∀ part : List (Option UInt8), none ∉ part ∨ name = ascii "streamname" →
      fill (ascii "streamname") part = fill (urlEncode name) part := by
    intro part closed
    rw [fill_eq_iff,urlEncode_streamname_iff]
    exact closed
  obtain ⟨rest,_,split⟩ := parts_srt srt
  have scheme : none ∉ (splitUrl isPart (parts template)).scheme := by
    have spelled : (splitUrl isPart ((ascii "srt://").map some ++ parts rest)).scheme = (ascii "srt").map some := rfl
    rw [split,spelled]
    simp
  unfold SameTarget
  rw [vetted_parts srt,dialed_parts srt isUrl clean kept]
  refine ⟨filled _ (.inl scheme),filled _ (confined.symm.imp (fun tokens => tokens.1) id),
    filled _ (confined.symm.imp (fun tokens => tokens.2.1) id),?_,?_,?_⟩
  · simp only [fillParts,List.map_map]
    refine List.map_congr_left fun entry member => ?_
    exact filled _ (confined.symm.imp (fun tokens => tokens.2.2 entry member) id)
  · simp [fillParts]
  · simp [fillParts]

end Dialed

/-- The dialed URL is the vetted one up to the name at the tokens exactly if the
template is an `srt://` URL without a NUL before its fragment and its tokens stand in
the query values and the path only, or the name is the one the validator filled in. -/
theorem push_target_vetted_iff (lib : CxxUrl) (decode : Text → Text) (standard : StandardSplitting lib decode)
    (net : Platform) (conf : AppConf) (bindAddresses : List Text) (template name url : Text)
    (accepted : (validatePushUrl lib net template conf bindAddresses).1 = .ok)
    (dials : connectUrl template name = some url) : SameTarget template name url ↔ Confined template name := by
  obtain ⟨host,port,query,first,rest,passes⟩ := validatePushUrl_passes lib net template conf bindAddresses accepted
  obtain ⟨scheme,isScheme⟩ := passes.isScheme
  have isUrl := connectUrl_eq dials
  constructor
  · intro same
    have srt : (ascii "srt://").isPrefixOf template = true := by
      by_contra other
      rw [if_neg other] at isUrl
      have dialed : (splitUrl isByte url).scheme = ascii "srt" := by
        rw [isUrl]
        rfl
      exact other (srt_begins (starts_of_scheme (standard.scheme _ _ isScheme).1 (same.1.trans dialed)))
    rw [if_pos srt,List.nil_append] at isUrl
    have asked : (splitUrl isPart (parts template)).query ≠ [] := by
      intro none
      have empty := standard.query _ _ passes.isQuery
      rw [vetted_query,none] at empty
      have streamid := passes.streamid
      rw [empty] at streamid
      cases streamid
    have clean := clean_of_same same isUrl asked
    refine ⟨srt,clean,?_⟩
    by_cases named : name = ascii "streamname"
    · exact .inl named
    · refine .inr (tokens_of_same srt isUrl clean same ?_)
      rw [Ne,urlEncode_streamname_iff]
      exact named
  · rintro ⟨srt,clean,confined⟩
    rw [if_pos srt,List.nil_append] at isUrl
    exact same_of_confined srt isUrl clean confined

/-- The standard splitting itself, without decoding. -/
def standardUrl : CxxUrl where
  scheme := fun url =>
    if (ascii "//").isPrefixOf (after (isByte ':') (body isByte url)) then some (splitUrl isByte url).scheme else none
  host := fun url => some (splitUrl isByte url).host
  port := fun url => some (splitUrl isByte url).port
  query := fun url => some (splitUrl isByte url).query

theorem standardUrl_splitting : StandardSplitting standardUrl id where
  scheme := by
    intro text scheme read
    simp only [standardUrl] at read
    split at read
    · rename_i separated
      exact ⟨separated,(Option.some.inj read).symm⟩
    · cases read
  host := fun _ _ read => (Option.some.inj read).symm
  port := fun _ _ read => (Option.some.inj read).symm
  query := fun text query read => by
    rw [← Option.some.inj read]
    exact (List.map_id _).symm

def namedStreamid : Text := ascii "srt://example.com:9000/relay?streamid=\x7bstream_name\x7d&latency=200"

theorem push_target_vetted_iff_streamid :
    SameTarget namedStreamid (ascii "cam 1") (ascii "srt://example.com:9000/relay?streamid=cam%201&latency=200") :=
  (push_target_vetted_iff standardUrl id standardUrl_splitting oneHost openConf [] namedStreamid (ascii "cam 1") _
    (by decide) (by decide)).mpr ⟨by decide,by decide,.inr ⟨by decide,by decide,by decide⟩⟩

/-- With the token in the host the vetted host is not the one in the dialed URL. -/
theorem token_in_host_escapes :
    ¬ ∀ (lib : CxxUrl) (decode : Text → Text), StandardSplitting lib decode →
      ∀ (net : Platform) (conf : AppConf) (bindAddresses : List Text) (template name url : Text),
        (validatePushUrl lib net template conf bindAddresses).1 = .ok → connectUrl template name = some url →
        SameTarget template name url := by
  intro claim
  have same := claim standardUrl id standardUrl_splitting oneHost openConf []
    (ascii "srt://\x7bstream_name\x7d.example.com:9000?streamid=x") (ascii "cam")
    (ascii "srt://cam.example.com:9000?streamid=x") (by decide) (by decide)
  have hosts := same.2.1
  revert hosts
  decide

end SrtLiveServer.PushTarget
