import SrtLiveServer.Bytes
import Mathlib.Logic.Function.Basic

/-! Stream identifiers as clients send them: `sls_parse_streamid` with its two
syntaxes, the name check behind it, and the route the listener derives. Texts
are C strings, so they hold no NUL. -/
namespace SrtLiveServer.StreamId
open Bytes

def isBlank (b : UInt8) : Bool := b ∈ [0x20,0x09,0x0d,0x0a,0x0c,0x0b]

def slsTrim (text : Text) : Text := trimBy isBlank text

def slsSplitString (text : Text) (separator : UInt8) : List Text := text.splitOn separator

def stdhdr : Text := ascii "#!::"

def keyValueForm (sid : Text) : Bool := 4 < sid.length && sid.take 4 == stdhdr

abbrev Params : Type := Text → Option Text

def Params.set (params : Params) (key value : Text) : Params := Function.update params key (some value)

def addItem (params : Params) (item : Text) : Params :=
  match slsSplitString item (byte '=') with
  | [key,value] => params.set (slsTrim key) (slsTrim value)
  | _ => params

def slsParseStreamid (sid : Text) : Params :=
  if keyValueForm sid then
    (slsSplitString (sid.drop 4) (byte ',')).foldl addItem fun _ => none
  else
    match slsSplitString sid (byte '/') with
    | host::app::stream::_ =>
      let params : Params := fun _ => none
      ((params.set (ascii "h") (slsTrim host)).set (ascii "sls_app") (slsTrim app)).set (ascii "r") (slsTrim stream)
    | _ => fun _ => none

def isSafeByte (b : UInt8) : Bool :=
  b != byte '/' && b != byte '\\' && b != byte '#' && b != byte '&' && b != byte '%' && b != byte ' ' &&
    !(b < 0x20) && b != 0x7f

def slsIsSafeName (name : Text) : Bool :=
  !name.isEmpty && name != ascii "." && name != ascii ".." && name.all isSafeByte

structure Route where
  host : Text
  app : Text
  stream : Text
  safe : slsIsSafeName host = true ∧ slsIsSafeName app = true ∧ slsIsSafeName stream = true
deriving DecidableEq

/-- The parse with which `handler` and `drive_pending_player_connections` route a
connection: all three keys present and safe. -/
def route (sid : Text) : Option Route :=
  match slsParseStreamid sid (ascii "h"),slsParseStreamid sid (ascii "sls_app"),
      slsParseStreamid sid (ascii "r") with
  | some host,some app,some stream =>
    if safe : slsIsSafeName host = true ∧ slsIsSafeName app = true ∧ slsIsSafeName stream = true then
      some ⟨host,app,stream,safe⟩
    else none
  | _,_,_ => none

theorem safeName_ne_nil (name : Text) (safe : slsIsSafeName name = true) : name ≠ [] := by
  intro empty
  subst name
  simp [slsIsSafeName] at safe

theorem trimmed_safe_ne_nil (text : Text) (safe : slsIsSafeName (slsTrim text) = true) : text ≠ [] := by
  intro empty
  subst text
  exact safeName_ne_nil _ safe (trimBy_nil isBlank)

theorem slash_params (host app stream : Text) :
    let none : Params := fun _ => none
    let params := ((none.set (ascii "h") host).set (ascii "sls_app") app).set (ascii "r") stream
    params (ascii "h") = some host ∧ params (ascii "sls_app") = some app ∧ params (ascii "r") = some stream := by
  have first : ascii "h" ≠ ascii "sls_app" := by decide
  have second : ascii "h" ≠ ascii "r" := by decide
  have third : ascii "sls_app" ≠ ascii "r" := by decide
  simp [Params.set,first,second,third]

theorem route_slash_pieces {sid : Text} {r : Route} (slash : keyValueForm sid = false) (routed : route sid = some r) :
    ∃ host app stream more, slsSplitString sid (byte '/') = host::app::stream::more ∧
      slsTrim host = r.host ∧ slsTrim app = r.app ∧ slsTrim stream = r.stream := by
  unfold route slsParseStreamid at routed
  simp only [slash,Bool.false_eq_true,if_false] at routed
  cases pieces : slsSplitString sid (byte '/') with
  | nil => simp [pieces] at routed
  | cons host rest =>
    cases rest with
    | nil => simp [pieces] at routed
    | cons app rest =>
      cases rest with
      | nil => simp [pieces] at routed
      | cons stream rest =>
        have found := slash_params (slsTrim host) (slsTrim app) (slsTrim stream)
        simp only [pieces] at routed found
        rw [found.1,found.2.1,found.2.2] at routed
        simp only at routed
        split at routed
        · cases Option.some.inj routed
          exact ⟨host,app,stream,rest,rfl,rfl,rfl,rfl⟩
        · cases routed

/-- The pieces of a routed identifier are nonempty, so the tokens `strtok` finds
are the pieces the parser found. -/
theorem route_slash_tokens (sid : Text) (r : Route) (slash : keyValueForm sid = false) (routed : route sid = some r) :
    ∃ host app stream more, tokens (· == byte '/') sid = host::app::stream::more ∧
      slsTrim host = r.host ∧ slsTrim app = r.app ∧ slsTrim stream = r.stream := by
  obtain ⟨host,app,stream,rest,pieces,hosts,apps,streams⟩ := route_slash_pieces slash routed
  obtain ⟨safeHost,safeApp,safeStream⟩ := r.safe
  rw [← hosts] at safeHost
  rw [← apps] at safeApp
  rw [← streams] at safeStream
  have split : sid.splitOnP (· == byte '/') = [host,app,stream] ++ rest := by
    rw [← List.splitOn_eq_splitOnP]
    exact pieces
  obtain ⟨more,found⟩ := tokens_take _ sid _ rest split (by
    intro piece member
    simp only [List.mem_cons,List.not_mem_nil,or_false] at member
    rcases member with rfl | rfl | rfl
    · exact trimmed_safe_ne_nil _ safeHost
    · exact trimmed_safe_ne_nil _ safeApp
    · exact trimmed_safe_ne_nil _ safeStream)
  exact ⟨host,app,stream,more,found,hosts,apps,streams⟩

theorem safeName_all {name : Text} (safe : slsIsSafeName name = true) : ∀ b ∈ name, isSafeByte b = true := by
  simp only [slsIsSafeName,Bool.and_eq_true,List.all_eq_true] at safe
  exact safe.2

theorem safeName_slash {name : Text} (safe : slsIsSafeName name = true) : byte '/' ∉ name := by
  intro member
  have clash := safeName_all safe _ member
  revert clash
  decide

theorem isSafeByte_not_blank (b : UInt8) (safe : isSafeByte b = true) : isBlank b = false := by
  cases blank : isBlank b with
  | false => rfl
  | true =>
    have member : b ∈ [(0x20 : UInt8),0x09,0x0d,0x0a,0x0c,0x0b] := of_decide_eq_true blank
    simp only [List.mem_cons,List.not_mem_nil,or_false] at member
    rcases member with rfl | rfl | rfl | rfl | rfl | rfl <;> cases safe

theorem slsTrim_safe {name : Text} (safe : ∀ b ∈ name, isSafeByte b = true) : slsTrim name = name := by
  have solid : ∀ b ∈ name, ¬ isBlank b = true := by
    intro b member
    rw [isSafeByte_not_blank b (safe b member)]
    exact Bool.false_ne_true
  have front : name.dropWhile isBlank = name := by
    cases name with
    | nil => rfl
    | cons b rest => exact List.dropWhile_cons_of_neg (solid b (List.mem_cons_self ..))
  unfold slsTrim trimBy
  rw [front,List.rdropWhile_eq_self_iff]
  intro _
  exact solid _ (List.getLast_mem _)

theorem keyValueForm_plain {sid : Text} (plain : byte '#' ∉ sid) : keyValueForm sid = false := by
  cases form : keyValueForm sid with
  | false => rfl
  | true =>
    simp only [keyValueForm,Bool.and_eq_true,beq_iff_eq] at form
    have first : byte '#' ∈ sid.take 4 := by
      rw [form.2]
      decide
    exact absurd (List.mem_of_mem_take first) plain

theorem route_pieces {sid host app stream : Text} {more : List Text} (plain : byte '#' ∉ sid)
    (pieces : slsSplitString sid (byte '/') = host::app::stream::more)
    (trimmed : slsTrim host = host ∧ slsTrim app = app ∧ slsTrim stream = stream) :
    route sid = if safe : slsIsSafeName host = true ∧ slsIsSafeName app = true ∧ slsIsSafeName stream = true then
      some ⟨host,app,stream,safe⟩ else none := by
  have found := slash_params host app stream
  have slash : keyValueForm sid = false := keyValueForm_plain plain
  unfold route slsParseStreamid
  simp only [slash,Bool.false_eq_true,if_false,pieces]
  rw [trimmed.1,trimmed.2.1,trimmed.2.2]
  dsimp only at found
  rw [found.1,found.2.1,found.2.2]

theorem route_few {sid : Text} {pieces : List Text} (plain : byte '#' ∉ sid)
    (found : slsSplitString sid (byte '/') = pieces) (few : pieces.length < 3) : route sid = none := by
  have slash : keyValueForm sid = false := keyValueForm_plain plain
  unfold route slsParseStreamid
  simp only [slash,Bool.false_eq_true,if_false,found]
  rcases pieces with _ | ⟨first,_ | ⟨second,_ | ⟨third,rest⟩⟩⟩
  · rfl
  · rfl
  · rfl
  · simp only [List.length_cons] at few
    omega

theorem splitOn_length_le (text : Text) (separator : UInt8) :
    ∀ piece ∈ slsSplitString text separator, piece.length ≤ text.length := by
  induction text with
  | nil =>
    intro piece member
    rw [List.mem_singleton.mp member]
    exact Nat.le_refl _
  | cons b rest ih =>
    unfold slsSplitString at ih ⊢
    rw [List.splitOn_cons_eq_if_modifyHead]
    intro piece member
    split at member
    · rcases List.mem_cons.mp member with rfl | later
      · exact Nat.zero_le _
      · exact Nat.le_succ_of_le (ih piece later)
    · cases pieces : rest.splitOn separator with
      | nil => exact absurd pieces (List.splitOn_ne_nil _ _)
      | cons head tail =>
        rw [pieces] at member ih
        rcases List.mem_cons.mp member with rfl | later
        · exact Nat.succ_le_succ (ih head (List.mem_cons_self ..))
        · exact Nat.le_succ_of_le (ih piece (List.mem_cons_of_mem _ later))

theorem slsTrim_length (text : Text) : (slsTrim text).length ≤ text.length := by
  unfold slsTrim trimBy
  exact Nat.le_trans (List.rdropWhile_prefix _ _).length_le (List.dropWhile_suffix _).length_le

def Params.Within (params : Params) (bound : Nat) : Prop := ∀ key value, params key = some value → value.length ≤ bound

theorem Params.Within.set {params : Params} {bound : Nat} (within : params.Within bound) (key : Text) {value : Text}
    (fits : value.length ≤ bound) : (params.set key value).Within bound := by
  intro other found present
  by_cases same : other = key
  · subst other
    rw [Params.set,Function.update_self] at present
    cases present
    exact fits
  · rw [Params.set,Function.update_of_ne same] at present
    exact within other found present

theorem Params.Within.addItem {params : Params} {bound : Nat} (within : params.Within bound) {item : Text}
    (fits : item.length ≤ bound) : (addItem params item).Within bound := by
  unfold StreamId.addItem
  split
  · rename_i name value pieces
    have part : value.length ≤ item.length := splitOn_length_le item _ value (by rw [pieces]; simp)
    exact within.set _ (Nat.le_trans (slsTrim_length value) (Nat.le_trans part fits))
  · exact within

theorem slsParseStreamid_within (sid : Text) : (slsParseStreamid sid).Within sid.length := by
  have start : Params.Within (fun _ => none) sid.length := fun _ _ found => by cases found
  unfold slsParseStreamid
  split
  · have items : ∀ item ∈ slsSplitString (sid.drop 4) (byte ','), item.length ≤ sid.length := fun item member =>
      Nat.le_trans (splitOn_length_le _ _ item member) (by simp)
    apply List.foldlRecOn (motive := fun params : Params => params.Within sid.length) _ addItem start
    exact fun _ within item member => within.addItem (items item member)
  · split
    · rename_i host app stream more pieces
      have part : ∀ piece ∈ host::app::stream::more, (slsTrim piece).length ≤ sid.length := by
        intro piece member
        apply Nat.le_trans (slsTrim_length piece)
        apply splitOn_length_le sid (byte '/')
        rw [pieces]
        exact member
      exact ((start.set _ (part host (by simp))).set _ (part app (by simp))).set _ (part stream (by simp))
    · exact start

theorem route_length {sid : Text} {r : Route} (routed : route sid = some r) :
    r.host.length ≤ sid.length ∧ r.app.length ≤ sid.length := by
  unfold route at routed
  split at routed
  · rename_i host app stream foundHost foundApp foundStream
    split at routed
    · cases routed
      exact ⟨slsParseStreamid_within sid _ host foundHost,slsParseStreamid_within sid _ app foundApp⟩
    · cases routed
  · cases routed

section Joined

variable {host app stream : Text}
  (safe : slsIsSafeName host = true ∧ slsIsSafeName app = true ∧ slsIsSafeName stream = true)
include safe

theorem joined_bytes : ∀ b ∈ host ++ byte '/'::(app ++ byte '/'::stream), b = byte '/' ∨ isSafeByte b = true := by
  intro b member
  rcases List.mem_append.mp member with inHost | member
  · exact Or.inr (safeName_all safe.1 b inHost)
  rcases List.mem_cons.mp member with slash | member
  · exact Or.inl slash
  rcases List.mem_append.mp member with inApp | member
  · exact Or.inr (safeName_all safe.2.1 b inApp)
  rcases List.mem_cons.mp member with slash | inStream
  · exact Or.inl slash
  · exact Or.inr (safeName_all safe.2.2 b inStream)

theorem joined_excludes {b : UInt8} (other : b ≠ byte '/') (shunned : isSafeByte b = false) :
    b ∉ host ++ byte '/'::(app ++ byte '/'::stream) := by
  intro member
  rcases joined_bytes safe b member with slash | isSafe
  · exact other slash
  · rw [shunned] at isSafe
    cases isSafe

theorem route_joined : route (host ++ byte '/'::(app ++ byte '/'::stream)) = some ⟨host,app,stream,safe⟩ := by
  have plain : byte '#' ∉ host ++ byte '/'::(app ++ byte '/'::stream) := joined_excludes safe (by decide) (by decide)
  have split : slsSplitString (host ++ byte '/'::(app ++ byte '/'::stream)) (byte '/') = [host,app,stream] := by
    rw [slsSplitString,List.splitOn_append_cons_self_of_not_mem (safeName_slash safe.1),
      List.splitOn_append_cons_self_of_not_mem (safeName_slash safe.2.1),
      List.splitOn_eq_singleton (safeName_slash safe.2.2)]
  rw [route_pieces plain split ⟨slsTrim_safe (safeName_all safe.1),slsTrim_safe (safeName_all safe.2.1),
    slsTrim_safe (safeName_all safe.2.2)⟩]
  exact dif_pos safe

end Joined

example : (route (ascii " play/live /key1/x")).map (fun r => (r.host,r.app,r.stream)) =
    some (ascii "play",ascii "live",ascii "key1") := by decide

end SrtLiveServer.StreamId
