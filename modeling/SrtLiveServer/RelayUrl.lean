import Mathlib.Algebra.Group.Int.Defs
import SrtLiveServer.PushUrl

/-! `CSLSRelay::parse_url`: the dialer's own reading of a push or pull URL. Only
`Url::parse_error` is caught, so an exception of `std::stoi` on the port leaves
the function. -/
namespace SrtLiveServer.RelayUrl
open Bytes PushUrl

inductive Exn where
  | invalidArgument
  | outOfRange
deriving DecidableEq,Repr

def decimal (digits : Text) : Int := digits.foldl (fun value b => value * 10 + (b.toNat - 48)) 0

/-- Leading blanks, an optional sign, then digits; what follows them is ignored. -/
def stringTo (low high : Int) (text : Text) : Except Exn Int :=
  let body := text.dropWhile isSpace
  let signed := match body with
    | b::rest => if b == byte '-' then (-1,rest) else if b == byte '+' then ((1 : Int),rest) else (1,body)
    | [] => (1,[])
  let digits := signed.2.takeWhile isDigit
  let value := signed.1 * decimal digits
  if digits.isEmpty then .error .invalidArgument
  else if value < low ∨ high < value then .error .outOfRange
  else .ok value

def stoi : Text → Except Exn Int := stringTo (-2 ^ 31) (2 ^ 31 - 1)

def stoll : Text → Except Exn Int := stringTo (-2 ^ 63) (2 ^ 63 - 1)

structure SRTUrlOptions where
  streamid : Text := []
  latency : Int := -1
  connectTimeout : Int := -1
  passphrase : Text := []
  pbkeylen : Int := -1
  maxbw : Int := -1
  inputbw : Int := -1
  oheadbw : Int := -1
  rcvbuf : Int := -1
  sndbuf : Int := -1
  fc : Int := -1
  mss : Int := -1
  lossmaxttl : Int := -1
  ipttl : Int := -1
  iptos : Int := -1
  tlpktdrop : Int := -1
  nakreport : Int := -1
deriving DecidableEq

/-- A value in range replaces the old one; a thrown exception is caught here. -/
def parseOption (convert : Text → Except Exn Int) (value : Text) (old low high : Int) : Int :=
  match convert value with
  | .ok parsed => if parsed < low ∨ high < parsed then old else parsed
  | .error _ => old

def parseIntOption : Text → Int → Int → Int → Int := parseOption stoi

def parseInt64Option : Text → Int → Int → Int → Int := parseOption stoll

def int64Max : Int := 2 ^ 63 - 1
def bufferMax : Int := 1024 * 1024 * 1024

def applyOption (state : SRTUrlOptions × Bool) (item : Text × Text) : SRTUrlOptions × Bool :=
  let o := state.1
  let found := state.2
  let key := item.1
  let value := item.2
  if key = ascii "streamid" then ({o with streamid := strlcpy (cStr value) 2048},true)
  else if key = ascii "latency" then ({o with latency := parseIntOption value o.latency 0 10000},found)
  else if key = ascii "connect_timeout" ∨ key = ascii "conntimeo" then
    ({o with connectTimeout := parseIntOption value o.connectTimeout 0 30000},found)
  else if key = ascii "passphrase" then
    if 79 < value.length ∨ value.length < 10 then (o,found) else ({o with passphrase := strlcpy (cStr value) 80},found)
  else if key = ascii "pbkeylen" then
    let keylen := parseIntOption value (-1) 0 32
    if keylen = 0 ∨ keylen = 16 ∨ keylen = 24 ∨ keylen = 32 then ({o with pbkeylen := keylen},found) else (o,found)
  else if key = ascii "maxbw" then ({o with maxbw := parseInt64Option value o.maxbw (-1) int64Max},found)
  else if key = ascii "inputbw" then ({o with inputbw := parseInt64Option value o.inputbw 0 int64Max},found)
  else if key = ascii "oheadbw" then ({o with oheadbw := parseIntOption value o.oheadbw 5 100},found)
  else if key = ascii "rcvbuf" then ({o with rcvbuf := parseIntOption value o.rcvbuf 0 bufferMax},found)
  else if key = ascii "sndbuf" then ({o with sndbuf := parseIntOption value o.sndbuf 0 bufferMax},found)
  else if key = ascii "fc" then ({o with fc := parseIntOption value o.fc 32 1000000},found)
  else if key = ascii "mss" then ({o with mss := parseIntOption value o.mss 76 1500},found)
  else if key = ascii "lossmaxttl" then ({o with lossmaxttl := parseIntOption value o.lossmaxttl 0 1000},found)
  else if key = ascii "ipttl" then ({o with ipttl := parseIntOption value o.ipttl 1 255},found)
  else if key = ascii "iptos" then ({o with iptos := parseIntOption value o.iptos 0 255},found)
  else if key = ascii "tlpktdrop" then ({o with tlpktdrop := parseIntOption value o.tlpktdrop 0 1},found)
  else if key = ascii "nakreport" then ({o with nakreport := parseIntOption value o.nakreport 0 1},found)
  else (o,found)

structure Endpoint where
  hostName : Text
  port : Int
  options : SRTUrlOptions
deriving DecidableEq

def defaultLatency : Int := 120
def hostMaxLen : Nat := 256

def finishUrl (host : Text) (port : Int) (query : List (Text × Text)) : Option Endpoint :=
  let parsed := query.foldl applyOption ({},false)
  if parsed.2 then
    let options := if parsed.1.latency = -1 then {parsed.1 with latency := defaultLatency} else parsed.1
    some ⟨strlcpy (cStr host) hostMaxLen,port,options⟩
  else none

/-- `none` is `SLS_ERROR`; an error is an exception that leaves the function. -/
def parseUrl (lib : CxxUrl) (url : Text) : Except Exn (Option Endpoint) :=
  match lib.scheme url with
  | none => .ok none
  | some scheme =>
    if scheme ≠ ascii "srt" then .ok none
    else
      match lib.host url,lib.port url with
      | some host,some portText =>
        match stoi portText with
        | .error thrown => .error thrown
        | .ok port =>
          match lib.query url with
          | none => .ok none
          | some query => .ok (finishUrl host port query)
      | _,_ => .ok none

/-- The parse of `url` stops before the port, or finds a number there. -/
def PortReadable (lib : CxxUrl) (url : Text) : Prop :=
  lib.scheme url ≠ some (ascii "srt") ∨ lib.host url = none ∨ lib.port url = none ∨
    ∃ portText port, lib.port url = some portText ∧ stoi portText = .ok port

theorem parseUrl_returns_iff (lib : CxxUrl) (url : Text) :
    (∃ result, parseUrl lib url = .ok result) ↔ PortReadable lib url := by
  unfold parseUrl PortReadable
  cases scheme : lib.scheme url with
  | none => simp
  | some name =>
    by_cases srt : name = ascii "srt"
    · subst name
      cases host : lib.host url with
      | none => simp
      | some hostName =>
        cases port : lib.port url with
        | none => simp
        | some portText =>
          cases number : stoi portText with
          | error thrown => simp [number]
          | ok value => cases lib.query url <;> simp [number]
    · simp [srt]

theorem stoi_empty : stoi [] = .error .invalidArgument := rfl

theorem parseUrl_portless (lib : CxxUrl) (url host : Text) (scheme : lib.scheme url = some (ascii "srt"))
    (hostName : lib.host url = some host) (portless : lib.port url = some []) :
    parseUrl lib url = .error .invalidArgument := by
  simp [parseUrl,scheme,hostName,portless,stoi_empty]

/-- For an accepted push URL, as `connect_all` builds it for a stream name, the
dialer's parse returns exactly if the port it meets reads as a number. Where the
built URL is the text the validator parsed, no failure of the URL library can
keep the dialer from the port. -/
theorem accepted_push_url_returns (lib : CxxUrl) (net : Platform) (conf : AppConf) (bindAddresses : List Text)
    (template streamName : Text) (accepted : (validatePushUrl lib net template conf bindAddresses).1 = .ok) :
    ∀ url, connectUrl template streamName = some url →
      ((∃ result, parseUrl lib url = .ok result) ↔ PortReadable lib url) ∧
      (url = slsSubstituteStreamName template (ascii "streamname") →
        ((∃ result, parseUrl lib url = .ok result) ↔ lib.scheme url ≠ some (ascii "srt") ∨
          ∃ portText port, lib.port url = some portText ∧ stoi portText = .ok port)) := by
  intro url _
  refine ⟨parseUrl_returns_iff lib url,?_⟩
  intro same
  obtain ⟨scheme,host,port,query,first,rest,_,isHost,isPort,_⟩ :=
    validatePushUrl_ok lib net template conf bindAddresses accepted
  rw [← same] at isHost isPort
  rw [parseUrl_returns_iff,PortReadable,isHost,isPort]
  simp

def oneHost : Platform where
  resolveNumeric := fun _ _ => []
  resolveWithTimeout := fun _ _ => some [.inet 0x5db8d822 0]
  addrToString := fun _ => ascii "93.184.216.34"

def openConf : AppConf := ⟨0,[],false,false⟩

theorem accepted_push_url_returns_port :
    ∃ result, parseUrl plainUrl (ascii "srt://example.com:9000?streamid=abc") = .ok result :=
  (accepted_push_url_returns plainUrl oneHost openConf [] (ascii "srt://example.com:9000?streamid=abc") (ascii "s")
    (by decide) _ (by decide)).1.mpr (Or.inr (Or.inr (Or.inr ⟨ascii "9000",9000,by decide,by decide⟩)))

theorem portless_push_url_throws :
    ¬ ∀ (lib : CxxUrl) (net : Platform) (conf : AppConf) (bindAddresses : List Text) (template streamName url : Text),
      (validatePushUrl lib net template conf bindAddresses).1 = .ok → connectUrl template streamName = some url →
      ∃ result, parseUrl lib url = .ok result := by
  intro claim
  obtain ⟨result,returned⟩ := claim plainUrl oneHost openConf [] (ascii "srt://example.com?streamid=abc") (ascii "s")
    (ascii "srt://example.com?streamid=abc") (by decide) (by decide)
  have thrown := parseUrl_portless plainUrl (ascii "srt://example.com?streamid=abc") (ascii "example.com")
    (by decide) (by decide) (by decide)
  rw [thrown] at returned
  cases returned

end SrtLiveServer.RelayUrl
