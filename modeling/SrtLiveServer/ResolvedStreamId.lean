import SrtLiveServer.PlayerAccept
import SrtLiveServer.PlayerKeyCache

/-! How much of a resolved identifier the routing of a player reads. The webhook's
answer is accepted up to one size and copied into buffers of another before it is
parsed again. -/
namespace SrtLiveServer.ResolvedStreamId
open Bytes StreamId PlayerKeyGate PlayerAccept PlayerKeyCache

/-- The names `handler` routes by when the key was answered at once. -/
def handlerRoute (resolvedStreamId : Text) : Option Route :=
  match route (strlcpy (strlcpy (cStr resolvedStreamId) urlMaxLen) sidSize) with
  | none => none
  | some r => if urlMaxLen ≤ (keyApp r.host r.app).length then none else some r

/-- The names a held connection is routed by. -/
def drivePendingRoute (resolvedStreamId : Text) : Option Route := route (strlcpy (cStr resolvedStreamId) sidSize)

theorem handler_eq (c : Held) (resolvedStreamId : Text) :
    c.handler resolvedStreamId =
      match handlerRoute resolvedStreamId with
      | none => .reject
      | some r =>
        if c.appUplive.isEmpty then
          .publisher (keyApp r.host r.app) r.stream (strlcpy (strlcpy (cStr resolvedStreamId) urlMaxLen) sidSize)
        else c.finish r.stream (strlcpy (strlcpy (cStr resolvedStreamId) urlMaxLen) sidSize) := by
  unfold Held.handler handlerRoute
  dsimp only
  cases route (strlcpy (strlcpy (cStr resolvedStreamId) urlMaxLen) sidSize) with
  | none => rfl
  | some r =>
    dsimp only
    by_cases long : urlMaxLen ≤ (keyApp r.host r.app).length
    · rw [if_pos long,if_pos long]
    · rw [if_neg long,if_neg long]

theorem drivePending_eq (c : Held) (resolvedStreamId : Text) :
    c.drivePending resolvedStreamId =
      match drivePendingRoute resolvedStreamId with
      | none => .reject
      | some r => c.finish r.stream resolvedStreamId := rfl

def names : List Text := [ascii "h",ascii "sls_app",ascii "r"]

/-- Whatever either path routes the player by is what the parser finds in the
whole identifier. -/
def RoutedInFull (resolvedStreamId : Text) : Prop :=
  ∀ r, handlerRoute resolvedStreamId = some r ∨ drivePendingRoute resolvedStreamId = some r →
    slsParseStreamid (cStr resolvedStreamId) (ascii "h") = some r.host ∧
      slsParseStreamid (cStr resolvedStreamId) (ascii "sls_app") = some r.app ∧
      slsParseStreamid (cStr resolvedStreamId) (ascii "r") = some r.stream

/-- The first `n` bytes hold three slashes, or only blanks follow them up to the next one. -/
def ThirdPieceEnds (text : Text) (n : Nat) : Prop :=
  2 < (text.take n).count (byte '/') ∨ ∀ b ∈ (text.drop n).takeWhile (· != byte '/'), isBlank b = true

def items (text : Text) : List Text := slsSplitString (text.drop 4) (byte ',')

/-- The items of a `#!::` text that end behind its first `n` bytes, the one cut there among them. -/
def itemsBehind (text : Text) (n : Nat) : List Text := (items text).drop (((text.take n).drop 4).count (byte ','))

/-- What an item assigns to. -/
def itemKey (item : Text) : Text := slsTrim (item.takeWhile (· != byte '='))

/-- Two slashes, and safe names in front of each and behind. -/
def CarriesNames (text : Text) : Prop :=
  ∃ host app rest, text = host ++ byte '/'::(app ++ byte '/'::rest) ∧ byte '/' ∉ host ∧ byte '/' ∉ app ∧
    slsIsSafeName (slsTrim host) = true ∧ slsIsSafeName (slsTrim app) = true ∧
    slsIsSafeName (slsTrim (rest.takeWhile (· != byte '/'))) = true

/-- Nothing behind the first `n` bytes belongs to one of the three names. -/
def TailIdle (text : Text) (n : Nat) : Prop :=
  if keyValueForm text then ∀ item ∈ itemsBehind text n, itemKey item ∉ names
  else ThirdPieceEnds text n ∨ ¬ CarriesNames (text.take n)

def assigned (name item : Text) : Option Text :=
  match slsSplitString item (byte '=') with
  | [key,value] => if slsTrim key = name then some (slsTrim value) else none
  | _ => none

/-- The value of the last item that assigns to `name`. -/
def lastValue (name : Text) (items : List Text) : Option Text := items.reverse.findSome? (assigned name)

theorem addItem_apply (params : Params) (item name : Text) :
    addItem params item name = (assigned name item).or (params name) := by
  unfold addItem assigned
  rcases slsSplitString item (byte '=') with _ | ⟨key,_ | ⟨value,_ | ⟨third,more⟩⟩⟩
  · rfl
  · rfl
  · dsimp only
    by_cases same : slsTrim key = name
    · subst same
      rw [if_pos rfl,Params.set,Function.update_self]
      rfl
    · rw [if_neg same,Params.set,Function.update_of_ne (Ne.symm same)]
      rfl
  · rfl

theorem foldl_addItem (list : List Text) (name : Text) :
    list.foldl addItem (fun _ => none) name = lastValue name list := by
  unfold lastValue
  induction list using List.reverseRecOn with
  | nil => rfl
  | append_singleton list item ih =>
    rw [List.foldl_concat,addItem_apply,ih,List.reverse_concat,List.findSome?_cons]
    cases assigned name item with
    | none => rfl
    | some value => rfl

theorem parse_keyValue {text : Text} (form : keyValueForm text = true) (name : Text) :
    slsParseStreamid text name = lastValue name (items text) := by
  unfold slsParseStreamid
  rw [if_pos form]
  exact foldl_addItem _ name

theorem keyValueForm_take (text : Text) {n : Nat} (enough : 4 < n) :
    keyValueForm (text.take n) = keyValueForm text := by
  have front : (text.take n).take 4 = text.take 4 := by
    rw [List.take_take,Nat.min_eq_left (Nat.le_of_lt enough)]
  have long : 4 < (text.take n).length ↔ 4 < text.length := by
    rw [List.length_take]
    omega
  unfold keyValueForm
  rw [front,decide_eq_decide.mpr long]

theorem split_cases (text : Text) (separator : UInt8) :
    (separator ∉ text ∧ slsSplitString text separator = [text]) ∨
      ∃ front back, text = front ++ separator::back ∧ separator ∉ front ∧
        slsSplitString text separator = front::slsSplitString back separator := by
  by_cases member : separator ∈ text
  · obtain ⟨front,back,rfl,first⟩ := List.eq_append_cons_of_mem member
    exact Or.inr ⟨front,back,rfl,first,List.splitOn_append_cons_self_of_not_mem first back⟩
  · exact Or.inl ⟨member,List.splitOn_eq_singleton member⟩

theorem split_head (text : Text) (separator : UInt8) :
    ∃ more, slsSplitString text separator = text.takeWhile (· != separator)::more := by
  rcases split_cases text separator with ⟨absent,split⟩ | ⟨front,back,rfl,first,split⟩
  · rw [takeWhile_bare absent]
    exact ⟨[],split⟩
  · rw [takeWhile_separator first]
    exact ⟨_,split⟩

theorem split_three {text host app stream : Text} {more : List Text} {separator : UInt8}
    (split : slsSplitString text separator = host::app::stream::more) :
    ∃ rest, text = host ++ separator::(app ++ separator::rest) ∧ separator ∉ host ∧ separator ∉ app ∧
      slsSplitString rest separator = stream::more := by
  rcases split_cases text separator with ⟨_,whole⟩ | ⟨front,back,rfl,first,cut⟩
  · rw [whole] at split
    cases split
  rw [cut] at split
  obtain ⟨rfl,behind⟩ := List.cons.inj split
  rcases split_cases back separator with ⟨_,whole⟩ | ⟨middle,rest,rfl,second,cut⟩
  · rw [whole] at behind
    cases behind
  rw [cut] at behind
  obtain ⟨rfl,last⟩ := List.cons.inj behind
  exact ⟨rest,rfl,first,second,last⟩

theorem split_joined {host app : Text} {separator : UInt8} (first : separator ∉ host) (second : separator ∉ app)
    (rest : Text) :
    ∃ more, slsSplitString (host ++ separator::(app ++ separator::rest)) separator =
      host::app::rest.takeWhile (· != separator)::more := by
  obtain ⟨more,split⟩ := split_head rest separator
  refine ⟨more,?_⟩
  rw [slsSplitString,List.splitOn_append_cons_self_of_not_mem first,List.splitOn_append_cons_self_of_not_mem second]
  exact congrArg (fun pieces => host::app::pieces) split

theorem parse_slash {text host app stream : Text} {more : List Text} (slash : keyValueForm text = false)
    (split : slsSplitString text (byte '/') = host::app::stream::more) :
    slsParseStreamid text (ascii "h") = some (slsTrim host) ∧
      slsParseStreamid text (ascii "sls_app") = some (slsTrim app) ∧
      slsParseStreamid text (ascii "r") = some (slsTrim stream) := by
  unfold slsParseStreamid
  rw [slash,split]
  exact slash_params _ _ _

theorem route_some {text : Text} {r : Route} (routed : route text = some r) :
    slsParseStreamid text (ascii "h") = some r.host ∧ slsParseStreamid text (ascii "sls_app") = some r.app ∧
      slsParseStreamid text (ascii "r") = some r.stream := by
  unfold route at routed
  split at routed
  · rename_i host app stream foundHost foundApp foundStream
    split at routed
    · cases routed
      exact ⟨foundHost,foundApp,foundStream⟩
    · cases routed
  · cases routed

/-- Appending to a text that is not all blank leaves its trimmed form exactly if only blanks are appended. -/
theorem slsTrim_append {text : Text} (visible : slsTrim text ≠ []) (more : Text) :
    slsTrim (text ++ more) = slsTrim text ↔ ∀ b ∈ more, isBlank b = true := by
  unfold slsTrim trimBy at *
  have front : text.dropWhile isBlank ≠ [] := by
    intro empty
    rw [empty] at visible
    exact visible rfl
  have kept : (text ++ more).dropWhile isBlank = text.dropWhile isBlank ++ more := by
    rw [List.dropWhile_append,if_neg (by simpa using front)]
  rw [kept]
  unfold List.rdropWhile
  rw [List.reverse_append,List.dropWhile_append]
  constructor
  · intro same b member
    by_cases blank : (more.reverse.dropWhile isBlank).isEmpty
    · rw [List.isEmpty_iff,List.dropWhile_eq_nil_iff] at blank
      exact blank b (List.mem_reverse.mpr member)
    · -- a visible byte behind the text makes the trimmed form longer
      rw [if_neg blank] at same
      have length := congrArg List.length same
      have shorter := (List.dropWhile_suffix isBlank (l := (text.dropWhile isBlank).reverse)).length_le
      have some : 0 < (more.reverse.dropWhile isBlank).length := by
        rw [List.isEmpty_iff] at blank
        exact List.length_pos_of_ne_nil blank
      simp only [List.length_reverse,List.length_append] at length shorter
      omega
  · intro blank
    rw [if_pos]
    rw [List.isEmpty_iff,List.dropWhile_eq_nil_iff]
    exact fun b member => blank b (List.mem_reverse.mp member)

theorem count_joined {host app : Text} {separator : UInt8} (first : separator ∉ host) (second : separator ∉ app)
    (rest : Text) : (host ++ separator::(app ++ separator::rest)).count separator = rest.count separator + 2 := by
  rw [List.count_append,List.count_cons_self,List.count_append,List.count_cons_self,
    List.count_eq_zero_of_not_mem first,List.count_eq_zero_of_not_mem second]
  omega

/-- Cut in its third piece, a text keeps that piece's trimmed form exactly if the third piece ends. -/
theorem third_piece_iff {host app rest tail : Text} (first : byte '/' ∉ host) (second : byte '/' ∉ app)
    (visible : slsTrim (rest.takeWhile (· != byte '/')) ≠ []) :
    slsTrim (rest.takeWhile (· != byte '/')) = slsTrim ((rest ++ tail).takeWhile (· != byte '/')) ↔
      2 < (host ++ byte '/'::(app ++ byte '/'::rest)).count (byte '/') ∨
        ∀ b ∈ tail.takeWhile (· != byte '/'), isBlank b = true := by
  rw [count_joined first second]
  by_cases inside : byte '/' ∈ rest
  · have counted := List.count_pos_iff.mpr inside
    obtain ⟨front,back,rfl,bare⟩ := List.eq_append_cons_of_mem inside
    rw [List.append_assoc,List.cons_append,takeWhile_separator bare,takeWhile_separator bare]
    exact ⟨fun _ => Or.inl (by omega),fun _ => rfl⟩
  · have none : ¬ 2 < rest.count (byte '/') + 2 := by
      rw [List.count_eq_zero_of_not_mem inside]
      exact Nat.lt_irrefl 2
    rw [takeWhile_bare inside] at visible ⊢
    rw [List.takeWhile_append_of_pos (bare_all inside),eq_comm,slsTrim_append visible]
    exact ⟨Or.inr,fun either => either.resolve_left none⟩

theorem assigned_key {name item value : Text} (found : assigned name item = some value) :
    itemKey item = name ∧ byte '=' ∈ item := by
  unfold assigned at found
  obtain ⟨more,head⟩ := split_head item (byte '=')
  by_cases present : byte '=' ∈ item
  · refine ⟨?_,present⟩
    split at found
    next key value pieces =>
      split at found
      next same =>
        rw [pieces] at head
        rw [itemKey,← (List.cons.inj head).1]
        exact same
      · cases found
    · cases found
  · have whole : slsSplitString item (byte '=') = [item] := List.splitOn_eq_singleton present
    rw [whole] at found
    cases found

theorem itemKey_cut {item : Text} (present : byte '=' ∈ item) (tail : Text) : itemKey (item ++ tail) = itemKey item := by
  obtain ⟨front,back,rfl,bare⟩ := List.eq_append_cons_of_mem present
  unfold itemKey
  rw [List.append_assoc,List.cons_append,takeWhile_separator bare,takeWhile_separator bare]

/-- What stands behind the last separator of a text is its last piece, and goes on in what is appended. -/
theorem split_cut (text tail : Text) (separator : UInt8) :
    ∃ pieces last, pieces.length = text.count separator ∧ separator ∉ last ∧
      slsSplitString text separator = pieces ++ [last] ∧
      slsSplitString (text ++ tail) separator = pieces ++ slsSplitString (last ++ tail) separator := by
  induction h : text.length using Nat.strong_induction_on generalizing text with
  | _ n ih =>
    rcases split_cases text separator with ⟨absent,split⟩ | ⟨front,back,rfl,first,split⟩
    · exact ⟨[],text,(List.count_eq_zero_of_not_mem absent).symm,absent,split,rfl⟩
    · have shorter : back.length < n := by
        rw [← h,List.length_append,List.length_cons]
        omega
      obtain ⟨pieces,last,counted,bare,cut,whole⟩ := ih back.length shorter back rfl
      refine ⟨front::pieces,last,?_,bare,?_,?_⟩
      · rw [List.length_cons,counted,List.count_append,List.count_cons_self,List.count_eq_zero_of_not_mem first,Nat.zero_add]
      · rw [split,cut]
        rfl
      · rw [List.append_assoc,List.cons_append]
        have joined : slsSplitString (front ++ separator::(back ++ tail)) separator =
            front::slsSplitString (back ++ tail) separator := List.splitOn_append_cons_self_of_not_mem first _
        rw [joined,whole]
        rfl

theorem lastValue_append {name : Text} {behind : List Text} (idle : ∀ item ∈ behind, assigned name item = none)
    (front : List Text) : lastValue name (front ++ behind) = lastValue name front := by
  have none : behind.reverse.findSome? (assigned name) = .none :=
    List.findSome?_eq_none_iff.mpr fun item member => idle item (List.mem_reverse.mp member)
  unfold lastValue
  rw [List.reverse_append,List.findSome?_append,none,Option.none_or]

/-- Items that assign to none of the names leave the names as the front of the text has them. -/
theorem lastValue_take {text : Text} {n : Nat} (enough : 4 < n) (idle : ∀ item ∈ itemsBehind text n, itemKey item ∉ names)
    {name : Text} (asked : name ∈ names) : lastValue name (items (text.take n)) = lastValue name (items text) := by
  obtain ⟨pieces,last,counted,bare,cut,whole⟩ := split_cut ((text.take n).drop 4) (text.drop n) (byte ',')
  have joined : (text.take n).drop 4 ++ text.drop n = text.drop 4 := by
    by_cases long : 4 ≤ (text.take n).length
    · rw [← List.drop_append_of_le_length long,List.take_append_drop]
    · have short : text.length ≤ 4 := by
        rw [List.length_take] at long
        omega
      rw [List.drop_eq_nil_of_le (by omega),List.drop_eq_nil_of_le (by omega),List.drop_eq_nil_of_le short]
      rfl
  rw [joined] at whole
  have behind : itemsBehind text n = slsSplitString (last ++ text.drop n) (byte ',') := by
    unfold itemsBehind items
    rw [whole,← counted,List.drop_left]
  have quiet : ∀ item, itemKey item ∉ names → assigned name item = none := by
    intro item other
    cases found : assigned name item with
    | none => rfl
    | some value => exact absurd ((assigned_key found).1 ▸ asked) other
  have lasting : assigned name last = none := by
    cases found : assigned name last with
    | none => rfl
    | some value =>
      -- the item cut in two has its key in front of the cut
      obtain ⟨key,present⟩ := assigned_key found
      obtain ⟨more,head⟩ := split_head (last ++ text.drop n) (byte ',')
      rw [List.takeWhile_append_of_pos (bare_all bare)] at head
      have other := idle (last ++ (text.drop n).takeWhile (· != byte ',')) (by rw [behind,head]; exact List.mem_cons_self)
      rw [itemKey_cut present,key] at other
      exact absurd asked other
  have front : lastValue name (items (text.take n)) = lastValue name pieces := by
    unfold items
    rw [cut]
    exact lastValue_append (fun item member => by rw [List.mem_singleton.mp member]; exact lasting) pieces
  have all : lastValue name (items text) = lastValue name pieces := by
    unfold items
    rw [whole,← behind]
    exact lastValue_append (fun item member => quiet item (idle item member)) pieces
  rw [front,all]

theorem carriesNames_iff {text : Text} (slash : keyValueForm text = false) :
    CarriesNames text ↔ ∃ r, route text = some r := by
  constructor
  · rintro ⟨host,app,rest,rfl,first,second,safe⟩
    obtain ⟨_,split⟩ := split_joined first second rest
    obtain ⟨hosts,apps,streams⟩ := parse_slash slash split
    unfold route
    rw [hosts,apps,streams]
    exact ⟨_,dif_pos safe⟩
  · rintro ⟨r,routed⟩
    obtain ⟨host,app,stream,more,pieces,hosts,apps,streams⟩ := route_slash_pieces slash routed
    obtain ⟨rest,cut,first,second,behind⟩ := split_three pieces
    obtain ⟨_,head⟩ := split_head rest (byte '/')
    rw [head] at behind
    obtain ⟨third,_⟩ := List.cons.inj behind
    refine ⟨host,app,rest,cut,first,second,?_⟩
    rw [third,hosts,apps,streams]
    exact r.safe

/-- The first `n` bytes of a slash text carry three safe names: the whole text carries the same
exactly if the third name ends. -/
theorem parse_slash_iff {text : Text} {n : Nat} (enough : 4 < n) (slash : keyValueForm text = false) {r : Route}
    (routed : route (text.take n) = some r) :
    (slsParseStreamid text (ascii "h") = some r.host ∧ slsParseStreamid text (ascii "sls_app") = some r.app ∧
      slsParseStreamid text (ascii "r") = some r.stream) ↔ ThirdPieceEnds text n := by
  have sameForm := keyValueForm_take text enough
  rw [slash] at sameForm
  obtain ⟨host,app,stream,more,pieces,hosts,apps,streams⟩ := route_slash_pieces sameForm routed
  obtain ⟨rest,cut,first,second,behind⟩ := split_three pieces
  obtain ⟨_,head⟩ := split_head rest (byte '/')
  rw [head] at behind
  obtain ⟨third,_⟩ := List.cons.inj behind
  have whole : text = host ++ byte '/'::(app ++ byte '/'::(rest ++ text.drop n)) := by
    have glued := List.take_append_drop n text
    rw [cut] at glued
    simpa using glued.symm
  obtain ⟨_,split⟩ := split_joined first second (rest ++ text.drop n)
  rw [← whole] at split
  obtain ⟨parseHost,parseApp,parseStream⟩ := parse_slash slash split
  have visible : slsTrim (rest.takeWhile (· != byte '/')) ≠ [] := by
    rw [third,streams]
    exact safeName_ne_nil _ r.safe.2.2
  rw [parseHost,parseApp,parseStream,hosts,apps,← streams,← third]
  have joined := @third_piece_iff _ _ _ (text.drop n) first second visible
  rw [← cut] at joined
  unfold ThirdPieceEnds
  rw [← joined]
  simp only [true_and,Option.some.injEq]
  exact eq_comm

theorem parse_keyValue_take {text : Text} {n : Nat} (enough : 4 < n) (form : keyValueForm text = true)
    (idle : ∀ item ∈ itemsBehind text n, itemKey item ∉ names) {name : Text} (asked : name ∈ names) :
    slsParseStreamid (text.take n) name = slsParseStreamid text name := by
  have sameForm := keyValueForm_take text enough
  rw [form] at sameForm
  rw [parse_keyValue sameForm,parse_keyValue form]
  exact lastValue_take enough idle asked

theorem handlerRoute_eq (resolvedStreamId : Text) : handlerRoute resolvedStreamId = drivePendingRoute resolvedStreamId := by
  have once : strlcpy (strlcpy (cStr resolvedStreamId) urlMaxLen) sidSize = strlcpy (cStr resolvedStreamId) sidSize := by
    unfold strlcpy
    rw [List.take_take]
    rfl
  unfold handlerRoute drivePendingRoute
  rw [once]
  cases routed : route (strlcpy (cStr resolvedStreamId) sidSize) with
  | none => rfl
  | some r =>
    obtain ⟨hostFits,appFits⟩ := route_length routed
    have fits : (strlcpy (cStr resolvedStreamId) sidSize).length ≤ 1023 := List.length_take_le _ _
    have url : urlMaxLen = 2048 := rfl
    have slash : (ascii "/").length = 1 := rfl
    apply if_neg
    simp only [keyApp,List.length_append,slash]
    omega

theorem routedInFull_route (resolvedStreamId : Text) :
    RoutedInFull resolvedStreamId ↔ ∀ r, route (strlcpy (cStr resolvedStreamId) sidSize) = some r →
      slsParseStreamid (cStr resolvedStreamId) (ascii "h") = some r.host ∧
        slsParseStreamid (cStr resolvedStreamId) (ascii "sls_app") = some r.app ∧
        slsParseStreamid (cStr resolvedStreamId) (ascii "r") = some r.stream := by
  unfold RoutedInFull
  rw [handlerRoute_eq]
  unfold drivePendingRoute
  simp only [or_self]

theorem routedInFull_short {resolvedStreamId : Text} (short : (cStr resolvedStreamId).length < sidSize) :
    RoutedInFull resolvedStreamId := by
  rw [routedInFull_route,strlcpy_short short]
  exact fun _ => route_some

theorem routedInFull_slash {resolvedStreamId : Text} (slash : keyValueForm (cStr resolvedStreamId) = false) :
    RoutedInFull resolvedStreamId ↔
      ThirdPieceEnds (cStr resolvedStreamId) (sidSize - 1) ∨ ¬ CarriesNames ((cStr resolvedStreamId).take (sidSize - 1)) := by
  have sameForm := keyValueForm_take (cStr resolvedStreamId) (n := sidSize - 1) (by decide)
  rw [slash] at sameForm
  rw [routedInFull_route,carriesNames_iff sameForm]
  constructor
  · intro full
    by_cases carried : ∃ r, route ((cStr resolvedStreamId).take (sidSize - 1)) = some r
    · obtain ⟨r,routed⟩ := carried
      exact .inl ((parse_slash_iff (by decide) slash routed).mp (full r routed))
    · exact .inr carried
  · rintro (ends | refused) r routed
    · exact (parse_slash_iff (by decide) slash routed).mpr ends
    · exact absurd ⟨r,routed⟩ refused

theorem routedInFull_keyValue {resolvedStreamId : Text} (form : keyValueForm (cStr resolvedStreamId) = true)
    (idle : ∀ item ∈ itemsBehind (cStr resolvedStreamId) (sidSize - 1), itemKey item ∉ names) :
    RoutedInFull resolvedStreamId := by
  rw [routedInFull_route]
  intro r routed
  have same : ∀ name ∈ names, slsParseStreamid (strlcpy (cStr resolvedStreamId) sidSize) name =
      slsParseStreamid (cStr resolvedStreamId) name := fun _ asked => parse_keyValue_take (by decide) form idle asked
  rw [← same _ (by decide),← same _ (by decide),← same _ (by decide)]
  exact route_some routed

/-- For everything the webhook can answer: the player is routed by the components of the
whole cached identifier if the identifier fits the streamid buffer, or nothing behind
what fits of it belongs to a name; and in the slash syntax only then. -/
theorem resolved_id_routed_in_full (duration : Int) (response : Response) (now : Int) :
    let id := (responseEntry duration response now).resolvedStreamId
    ((cStr id).length < sidSize ∨ TailIdle (cStr id) (sidSize - 1) → RoutedInFull id) ∧
      (keyValueForm (cStr id) = false → RoutedInFull id → TailIdle (cStr id) (sidSize - 1)) := by
  intro id
  unfold TailIdle
  cases form : keyValueForm (cStr id) with
  | true =>
    rw [if_pos rfl]
    refine ⟨?_,fun slash => by cases slash⟩
    rintro (short | idle)
    · exact routedInFull_short short
    · exact routedInFull_keyValue form idle
  | false =>
    rw [if_neg Bool.false_ne_true,← routedInFull_slash form]
    refine ⟨?_,fun _ full => full⟩
    rintro (short | full)
    · exact routedInFull_short short
    · exact full

def longName (n : Nat) : Text := List.replicate n (byte 'x')

theorem longName_length (n : Nat) : (longName n).length = n := List.length_replicate

theorem longName_named (n : Nat) : Named (ascii "h") (ascii "a") (longName (n + 1)) := by
  refine ⟨by decide,by decide,?_⟩
  have other : ∀ b rest, b ≠ byte 'x' → longName (n + 1) ≠ b::rest := fun b rest differs same =>
    differs (List.cons.inj same).1.symm
  simp only [slsIsSafeName,Bool.and_eq_true,bne_iff_ne]
  refine ⟨⟨⟨rfl,other _ _ (by decide)⟩,other _ _ (by decide)⟩,?_⟩
  rw [longName,List.all_replicate]
  exact ite_self _

theorem longName_take (n : Nat) :
    strlcpy (streamKey (ascii "h") (ascii "a") (longName (1019 + n))) sidSize =
      streamKey (ascii "h") (ascii "a") (longName 1019) := by
  have front : ∀ name, streamKey (ascii "h") (ascii "a") name = ascii "h/a/" ++ name := fun name => by
    rw [streamKey_eq]
    rfl
  rw [front,front]
  change ((ascii "h/a/") ++ longName (1019 + n)).take ((ascii "h/a/").length + 1019) = _
  rw [List.take_length_add_append,longName,List.take_replicate,Nat.min_eq_left (Nat.le_add_right _ _)]
  rfl

/-- An identifier of 1106 bytes, whose third name ends long before the cut. -/
theorem resolved_id_routed_in_full_tail :
    RoutedInFull (responseEntry 60000 ⟨true,200,.object (ascii "h/a/s/" ++ longName 1100) .absent⟩ 0).resolvedStreamId := by
  refine (resolved_id_routed_in_full 60000 ⟨true,200,.object (ascii "h/a/s/" ++ longName 1100) .absent⟩ 0).1 (.inr ?_)
  have slash : keyValueForm (cStr (responseEntry 60000 ⟨true,200,.object (ascii "h/a/s/" ++ longName 1100) .absent⟩
      0).resolvedStreamId) = false := by
    decide +kernel
  rw [TailIdle,slash,if_neg Bool.false_ne_true]
  exact .inl (.inl (by decide +kernel))

/-- An identifier that is cached, of which both paths attach the player to a stream
whose name is only the front of the one it names. -/
theorem long_resolved_id_cut :
    let id := streamKey (ascii "h") (ascii "a") (longName 1100)
    let entry := responseEntry 60000 ⟨true,200,.object id .absent⟩ 0
    entry.isValid = true ∧ entry.resolvedStreamId = id ∧ ¬ RoutedInFull id := by
  intro id entry
  have named : Named (ascii "h") (ascii "a") (longName 1100) := longName_named 1099
  have length : id.length = 1104 := by
    change (streamKey _ _ _).length = _
    rw [streamKey_eq]
    simp only [List.length_append,List.length_cons,longName_length]
    rfl
  have filled : id ≠ [] := List.ne_nil_of_length_pos (by omega)
  have fits : id.length < urlMaxLen := by
    rw [length]
    decide
  obtain ⟨valid,kept,_⟩ := @responseEntry_valid ⟨true,200,.object id .absent⟩ id .absent rfl rfl rfl filled fits 60000 0
  refine ⟨valid,kept,fun full => ?_⟩
  have cut : drivePendingRoute id = some ⟨ascii "h",ascii "a",longName 1019,(longName_named 1018).safe⟩ := by
    unfold drivePendingRoute
    rw [named.cStr,longName_take 81]
    exact (longName_named 1018).route
  have found := (full _ (Or.inr cut)).2.2
  rw [named.cStr,(route_some named.route).2.2] at found
  have lengths := congrArg List.length (Option.some.inj found)
  rw [longName_length,longName_length] at lengths
  exact absurd lengths (by decide)

end SrtLiveServer.ResolvedStreamId
