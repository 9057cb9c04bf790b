import SrtLiveServer.Percent
import SrtLiveServer.PusherManager
import SrtLiveServer.PushTarget
import SrtLiveServer.UpstreamRotation

/-! `url_encode` as it writes to its string stream, and what a stream name can add to
the URLs that are dialed for it. -/
namespace SrtLiveServer.UrlEncoding
open Bytes Checked Template UpstreamRotation

/-- What an output stream keeps from one output to the next. -/
structure Ostream where
  out : Text
  fill : UInt8
  hex : Bool
  uppercase : Bool
  width : Nat

def Ostream.empty : Ostream := ⟨[],byte ' ',false,false,0⟩

/-- Formatted output is filled up on the left, and takes the width back to zero. -/
def Ostream.pad (stream : Ostream) (piece : Text) : Ostream :=
  {stream with
    out := stream.out ++ (List.replicate (stream.width - piece.length) stream.fill ++ piece)
    width := 0}

def Ostream.putChar (stream : Ostream) (c : UInt8) : Ostream := stream.pad [c]

def Ostream.putInt (stream : Ostream) (n : Nat) : Ostream :=
  let digits := Nat.toDigits (if stream.hex then 16 else 10) n
  stream.pad ((if stream.uppercase then digits.map Char.toUpper else digits).map byte)

/-- A `char` is signed. -/
def charValue (b : UInt8) : Int := b.toInt8.toInt

/-- In the C locale. -/
def isalnum (c : Int) : Bool :=
  decide (48 ≤ c ∧ c ≤ 57) || decide (65 ≤ c ∧ c ≤ 90) || decide (97 ≤ c ∧ c ≤ 122)

def encodeStep (escaped : Ostream) (c : UInt8) : Ostream :=
  if isalnum (charValue c) || c == byte '-' || c == byte '_' || c == byte '.' || c == byte '~' then escaped.putChar c
  else
    let escaped := ({escaped with uppercase := true} : Ostream)
    let escaped := escaped.putChar (byte '%')
    let escaped := ({escaped with width := 2} : Ostream).putInt c.toNat
    {escaped with uppercase := false}

def urlEncode (value : Text) : Text :=
  (value.foldl encodeStep {Ostream.empty with fill := byte '0',hex := true}).out

theorem encode_table : ∀ n < 256,
    (isalnum (charValue (UInt8.ofNat n)) || UInt8.ofNat n == byte '-' || UInt8.ofNat n == byte '_' ||
      UInt8.ofNat n == byte '.' || UInt8.ofNat n == byte '~') = isUnreserved (UInt8.ofNat n) := by
  decide +kernel

theorem putInt_hex (out : Text) {n : Nat} (small : n < 256) :
    Ostream.putInt ⟨out,byte '0',true,true,2⟩ n =
      ⟨out ++ [Percent.digit (n / 16),Percent.digit (n % 16)],byte '0',true,true,0⟩ := by
  have table : ∀ n < 256, List.replicate (2 - (((Nat.toDigits 16 n).map Char.toUpper).map byte).length) (byte '0') ++
      ((Nat.toDigits 16 n).map Char.toUpper).map byte = [Percent.digit (n / 16),Percent.digit (n % 16)] := by
    decide +kernel
  rw [← table n small]
  rfl

/-- The stream as it stands between two bytes. -/
def between (out : Text) : Ostream := ⟨out,byte '0',true,false,0⟩

theorem encodeStep_between (out : Text) (b : UInt8) :
    encodeStep (between out) b = between (out ++ (if isUnreserved b then [b] else Percent.escape b)) := by
  have small : b.toNat < 256 := b.toNat_lt
  have kept := encode_table b.toNat small
  rw [UInt8.ofNat_toNat] at kept
  unfold encodeStep
  rw [kept]
  split
  · rfl
  · show ({Ostream.putInt ⟨out ++ [byte '%'],byte '0',true,true,2⟩ b.toNat with uppercase := false} : Ostream) = _
    rw [putInt_hex _ small,List.append_assoc]
    rfl

theorem urlEncode_percent (value : Text) : urlEncode value = Percent.encode isUnreserved value := by
  have written : ∀ out, value.foldl encodeStep (between out) = between (out ++ Percent.encode isUnreserved value) := by
    induction value with
    | nil =>
      intro out
      rw [show Percent.encode isUnreserved [] = [] from rfl,List.append_nil]
      rfl
    | cons b rest ih =>
      intro out
      rw [List.foldl_cons,encodeStep_between,ih,Percent.encode_cons,List.append_assoc]
  show (value.foldl encodeStep (between [])).out = _
  rw [written]
  rfl

/-- The encoding that the dialers' models use. -/
theorem urlEncode_eq (value : Text) : urlEncode value = SrtLiveServer.urlEncode value := by
  have digits : ∀ n < 16, Percent.digit n = hexDigit n := by decide
  rw [urlEncode_percent]
  unfold Percent.encode SrtLiveServer.urlEncode
  congr 1
  funext b
  have small : b.toNat < 256 := b.toNat_lt
  unfold Percent.escape
  rw [digits _ (by omega),digits _ (by omega)]
  rfl

/-- The bytes by which a URL is taken apart. -/
def isDelimiter (b : UInt8) : Bool := (ascii "?&=#/:@").contains b

theorem fill_filter {value : Text} {p : UInt8 → Bool} (free : ∀ b ∈ value, p b = false) (template : List (Option UInt8)) :
    (fill value template).filter p = (fill [] template).filter p := by
  induction template with
  | nil => rfl
  | cons part rest ih =>
    cases part with
    | none =>
      rw [fill_cons_none,fill_cons_none,List.filter_append,List.filter_append,ih]
      rw [List.filter_eq_nil_iff.mpr fun b member => by rw [free b member]; exact Bool.false_ne_true]
      rfl
    | some b => rw [fill_cons_some,fill_cons_some,List.filter_cons,List.filter_cons,ih]

theorem urlEncode_free (value : Text) : ∀ b ∈ SrtLiveServer.urlEncode value, isDelimiter b = false := by
  have table : ∀ n < 256, isDelimiter (UInt8.ofNat n) = true →
      isUnreserved (UInt8.ofNat n) = false ∧ UInt8.ofNat n ≠ 37 ∧ Percent.isUpperDigit (UInt8.ofNat n) = false := by
    decide +kernel
  intro b member
  rw [← urlEncode_eq,urlEncode_percent] at member
  by_contra delimits
  have isSep := table b.toNat b.toNat_lt
  rw [UInt8.ofNat_toNat] at isSep
  obtain ⟨unkept,other,noDigit⟩ := isSep (by simpa using delimits)
  exact (Percent.encode_encoded value).absent unkept other noDigit member

/-- The URL of a pull or hash leg, with a hole for the encoded stream name. -/
def relayHoles (upstream : Text) : List (Option UInt8) :=
  (ascii "srt://" ++ cStr upstream ++ ascii "/").map some ++ [none]

/-- The URL of a push leg. -/
def pushHoles (template : Text) : List (Option UInt8) :=
  if (ascii "srt://").isPrefixOf (cStr template) then PushTarget.parts (cStr template)
  else (ascii "srt://").map some ++ PushTarget.parts (cStr template)

theorem fill_literal (value front : Text) (rest : List (Option UInt8)) :
    fill value (front.map some ++ rest) = front ++ fill value rest := by
  induction front with
  | nil => rfl
  | cons b front ih => exact congrArg (List.cons b) ih

theorem relayUrl_fill {upstream name url : Text} (built : relayUrl upstream name = some url) :
    url = fill (urlEncode name) (relayHoles upstream) := by
  unfold relayUrl at built
  dsimp only at built
  split at built
  · rw [relayHoles,fill_literal,urlEncode_eq,← Option.some.inj built]
    show _ = _ ++ (SrtLiveServer.urlEncode name ++ [])
    rw [List.append_nil]
  · cases built

theorem connectUrl_fill {template name url : Text} (built : PushUrl.connectUrl template name = some url) :
    url = fill (urlEncode name) (pushHoles template) := by
  have whole : (if (ascii "srt://").isPrefixOf (cStr template) then
      PushUrl.slsSubstituteStreamName (cStr template) (SrtLiveServer.urlEncode name)
      else ascii "srt://" ++ PushUrl.slsSubstituteStreamName (cStr template) (SrtLiveServer.urlEncode name)) =
      fill (urlEncode name) (pushHoles template) := by
    unfold pushHoles
    rw [urlEncode_eq]
    split
    · rw [PushTarget.fill_parts]
    · rw [fill_literal,PushTarget.fill_parts]
  unfold PushUrl.connectUrl at built
  dsimp only at built
  rw [whole] at built
  split at built
  · exact (Option.some.inj built).symm
  · cases built

theorem connectHash_dials (p : Puller) (connect : Connects) :
    ∀ dial ∈ (p.connectHash connect).dials, ∃ upstream ∈ p.upstreams, relayUrl upstream p.streamName = some dial.2 := by
  intro dial member
  unfold Puller.connectHash at member
  dsimp only at member
  split at member
  · cases member
  · rename_i some
    split at member
    · cases member
    · rename_i szURL built
      rw [List.mem_singleton.mp member]
      refine ⟨_,?_,built⟩
      unfold getHashUrl at some ⊢
      by_cases none : p.upstreams.isEmpty = true
      · rw [if_pos none] at some
        exact absurd rfl some
      · have positive : 0 < p.upstreams.length := List.length_pos_iff.mpr (by simpa using none)
        rw [if_neg none,List.getD_eq_getElem _ _ (Nat.mod_lt _ positive)]
        exact List.getElem_mem _

theorem upstreamAt_mem {upstreams : List Text} {index : Int} {upstream : Text}
    (found : upstreamAt upstreams index = .ok upstream) : upstream ∈ upstreams := by
  unfold upstreamAt at found
  split at found
  · cases found
  · unfold readAt at found
    split at found
    · rename_i inside
      cases found
      exact List.mem_of_getElem? inside
    · cases found

theorem loopFrom_dials (p : Puller) (connect : Connects) (bound count : Nat) (index : Int) {p' : Puller} {d : Dialed}
    (ran : loopFrom p connect bound count index = .ok (p',d)) :
    ∀ dial ∈ d.dials, ∃ upstream ∈ p.upstreams, relayUrl upstream p.streamName = some dial.2 := by
  induction bound generalizing count index p' d with
  | zero => cases ran
  | succ bound ih =>
    rw [loopFrom] at ran
    dsimp only at ran
    generalize (if (p.upstreams.length : Int) ≤ index then 0 else index) = here at ran
    obtain ⟨upstream,found,ran⟩ := bind_eq_ok ran
    split at ran
    · cases ran
      intro dial member
      cases member
    · rename_i url built
      have first : ∃ upstream ∈ p.upstreams, relayUrl upstream p.streamName = some url :=
        ⟨upstream,upstreamAt_mem found,built⟩
      split at ran
      · cases ran
        intro dial member
        rw [List.mem_singleton.mp member]
        exact first
      · split at ran
        · cases ran
          intro dial member
          rw [List.mem_singleton.mp member]
          exact first
        · obtain ⟨⟨p'',later⟩,further,ran⟩ := bind_eq_ok ran
          cases ran
          intro dial member
          obtain rfl | among := List.mem_cons.mp member
          · exact first
          · exact ih _ _ further dial among

theorem connectLoop_dials {p p' : Puller} {connect : Connects} {d : Dialed} (ran : p.connectLoop connect = .ok (p',d)) :
    ∀ dial ∈ d.dials, ∃ upstream ∈ p.upstreams, relayUrl upstream p.streamName = some dial.2 := by
  unfold Puller.connectLoop at ran
  split at ran
  · cases ran
    intro dial member
    cases member
  · dsimp only at ran
    split at ran
    · exact loopFrom_dials {p with curLoopIndex := p.upstreams.length - 1} connect _ _ _ ran
    · exact loopFrom_dials p connect _ _ _ ran

theorem connectCalls_urls (name : Text) (i : Nat) (upstreams : List Text) (vetted : List PushUrl.SockAddr) :
    ∀ call ∈ PusherManager.connectCalls name i upstreams vetted,
      ∃ template ∈ upstreams, PushUrl.connectUrl template name = some call.2.1 := by
  induction upstreams generalizing i vetted with
  | nil =>
    intro call member
    cases member
  | cons template rest ih =>
    have later : ∀ call ∈ PusherManager.connectCalls name (i + 1) rest vetted.tail,
        ∃ other ∈ template::rest, PushUrl.connectUrl other name = some call.2.1 := by
      intro call member
      obtain ⟨other,among,built⟩ := ih (i + 1) vetted.tail call member
      exact ⟨other,List.mem_cons_of_mem _ among,built⟩
    intro call member
    rw [PusherManager.connectCalls] at member
    split at member
    · exact later call member
    · rename_i url built
      obtain rfl | member := List.mem_cons.mp member
      · exact ⟨template,List.mem_cons_self,built⟩
      · exact later call member

/-- The encoded text is made of unreserved bytes and escapes, and can be decoded again.
A stream name reaches the URLs dialed for it only in that form, so each has the
delimiters it would have without the name. -/
theorem url_encode_confines :
    (∀ value, Percent.Encoded isUnreserved (urlEncode value) ∧ Percent.decode (urlEncode value) = value) ∧
    Function.Injective urlEncode ∧
    (∀ (p : Puller) (connect : Connects), ∀ dial ∈ (p.connectHash connect).dials,
      ∃ upstream ∈ p.upstreams, dial.2 = fill (urlEncode p.streamName) (relayHoles upstream)) ∧
    (∀ (p p' : Puller) (connect : Connects) (d : Dialed), p.connectLoop connect = .ok (p',d) → ∀ dial ∈ d.dials,
      ∃ upstream ∈ p.upstreams, dial.2 = fill (urlEncode p.streamName) (relayHoles upstream)) ∧
    (∀ (info : PusherManager.RelayInfo) (name : Text),
      ∀ call ∈ PusherManager.connectCalls name 0 info.upstreams info.vettedAddrs,
      ∃ template ∈ info.upstreams, call.2.1 = fill (urlEncode name) (pushHoles template)) ∧
    ∀ name holes, (fill (urlEncode name) holes).filter isDelimiter = (fill [] holes).filter isDelimiter := by
  have escapes : isUnreserved 37 = false := by decide
  refine ⟨fun value => ?_,?_,fun p connect dial member => ?_,fun p p' connect d ran dial member => ?_,
    fun info name call member => ?_,fun name holes => ?_⟩
  · rw [urlEncode_percent]
    exact ⟨Percent.encode_encoded value,Percent.decode_encode escapes value⟩
  · rw [funext urlEncode_percent]
    exact Percent.encode_injective escapes
  · obtain ⟨upstream,among,built⟩ := connectHash_dials p connect dial member
    exact ⟨upstream,among,relayUrl_fill built⟩
  · obtain ⟨upstream,among,built⟩ := connectLoop_dials ran dial member
    exact ⟨upstream,among,relayUrl_fill built⟩
  · obtain ⟨template,among,built⟩ := connectCalls_urls name 0 info.upstreams info.vettedAddrs call member
    exact ⟨template,among,connectUrl_fill built⟩
  · rw [urlEncode_eq]
    exact fill_filter (urlEncode_free name) holes

end SrtLiveServer.UrlEncoding
