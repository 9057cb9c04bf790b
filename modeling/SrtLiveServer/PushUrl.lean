import SrtLiveServer.Common

/-! Push destinations named by the publish webhook: the `{stream_name}` template,
its percent-encoded substitution, and `validate_push_url`. The URL library, the
resolver and the address formatter are outside the repository and enter as
parameters; a failure of the URL library is its own `Url::parse_error`. -/
namespace SrtLiveServer.PushUrl
open Bytes

def streamNameToken : Text := ascii "\x7bstream_name\x7d"

/-- Copies `text`, each occurrence of `token` replaced by `name`; `skip` counts
the bytes left of the occurrence just replaced. -/
def substituteFrom (token name : Text) : Nat → Text → Text
  | _,[] => []
  | skip + 1,_::rest => substituteFrom token name skip rest
  | 0,b::rest =>
    if token.isPrefixOf (b::rest) then name ++ substituteFrom token name (token.length - 1) rest
    else b::substituteFrom token name 0 rest

def slsSubstituteStreamName (template name : Text) : Text := substituteFrom streamNameToken name 0 template

def hasStrayBrace (url : Text) : Bool :=
  (slsSubstituteStreamName url []).any fun b => b == byte '\x7b' || b == byte '\x7d'

/-- The URL `connect_all` dials for an upstream entry, if it fits the buffer. -/
def connectUrl (template streamName : Text) : Option Text :=
  let template := cStr template
  let substituted := slsSubstituteStreamName template (urlEncode streamName)
  let url := if (ascii "srt://").isPrefixOf template then substituted else ascii "srt://" ++ substituted
  if url.length < 1024 then some url else none

/-- The accessors of `Url`. Parsing is lazy, so a malformed text shows at an
accessor: `none` is `Url::parse_error`. -/
structure CxxUrl where
  scheme : Text → Option Text
  host : Text → Option Text
  port : Text → Option Text
  query : Text → Option (List (Text × Text))

inductive SockAddr where
  | inet (addr : BitVec 32) (port : Nat)
  | inet6 (addr : BitVec 128) (port : Nat)
  | other (family : Nat)
deriving DecidableEq

def SockAddr.isInternet : SockAddr → Bool
  | .inet _ _ => true
  | .inet6 _ _ => true
  | .other _ => false

def SockAddr.withPort (addr : SockAddr) (port : Int) : SockAddr :=
  match addr with
  | .inet v _ => .inet v (port % 65536).toNat
  | .inet6 v _ => .inet6 v (port % 65536).toNat
  | .other family => .other family

/-- The resolver: literal hosts, then host names within the deadline (`none` on
failure or timeout), and `inet_ntop`. -/
structure Platform where
  resolveNumeric : Text → Text → List SockAddr
  resolveWithTimeout : Text → Text → Option (List SockAddr)
  addrToString : SockAddr → Text

def Platform.resolve (net : Platform) (host port : Text) : List SockAddr :=
  let numeric := net.resolveNumeric host port
  if numeric.isEmpty then (net.resolveWithTimeout host port).getD [] else numeric

structure AppConf where
  pushDestinationMaxUrlLen : Int
  pushDestinationAllowSchemes : Text
  pushDestinationAllowInternal : Bool
  pushDestinationAllowSelf : Bool

inductive PushUrlReject where
  | ok
  | tooLong
  | invalidUrl
  | wrongScheme
  | missingHost
  | missingStreamid
  | dnsFailure
  | denyInternal
  | denySelf
  | badPlaceholder
deriving DecidableEq,Repr

def defaultMaxUrlLen : Int := 1024

def AppConf.maxUrlLen (conf : AppConf) : Int :=
  if 0 < conf.pushDestinationMaxUrlLen then conf.pushDestinationMaxUrlLen else defaultMaxUrlLen

def AppConf.allowSchemes (conf : AppConf) : Text :=
  if conf.pushDestinationAllowSchemes.isEmpty then ascii "srt" else conf.pushDestinationAllowSchemes

def schemeAllowed (scheme allowList : Text) : Bool :=
  if allowList.isEmpty then scheme == ascii "srt"
  else
    let separator := fun b => b == byte ' ' || b == byte '\t' || b == byte ',' || b == byte ';'
    (tokens separator allowList).any (· == scheme)

def ipv4InCidr (addr base : BitVec 32) (len : Nat) : Bool :=
  let mask := if len = 0 then 0#32 else BitVec.allOnes 32 <<< (32 - len)
  addr &&& mask == base &&& mask

structure Category where
  loopback : Bool
  linkLocal : Bool
  privnet : Bool
deriving DecidableEq,Repr

def categorizeAddr : SockAddr → Category
  | .inet v _ => {
      loopback := ipv4InCidr v 0x7f000000 8
      linkLocal := ipv4InCidr v 0xa9fe0000 16
      privnet := ipv4InCidr v 0x0a000000 8 || ipv4InCidr v 0xac100000 12 || ipv4InCidr v 0xc0a80000 16}
  | .inet6 v _ => {
      loopback := v == 1
      linkLocal := v >>> 118 == 0x3fa
      privnet := v >>> 121 == 0x7e}
  | .other _ => ⟨false,false,false⟩

/-- The category checks on one resolved address. -/
def denyAddr (net : Platform) (conf : AppConf) (bindAddresses : List Text) (addr : SockAddr) : Option PushUrlReject :=
  let c := categorizeAddr addr
  if !conf.pushDestinationAllowInternal && (c.loopback || c.linkLocal || c.privnet) then some .denyInternal
  else if !conf.pushDestinationAllowSelf && bindAddresses.contains (net.addrToString addr) then some .denySelf
  else none

/-- The verdict, and on `ok` the address that the caller must dial. -/
def validatePushUrl (lib : CxxUrl) (net : Platform) (url : Text) (conf : AppConf) (bindAddresses : List Text) :
    PushUrlReject × Option SockAddr :=
  if url.isEmpty then (.invalidUrl,none)
  else if conf.maxUrlLen < url.length then (.tooLong,none)
  else if hasStrayBrace url then (.badPlaceholder,none)
  else
    let resolved := slsSubstituteStreamName url (ascii "streamname")
    match lib.scheme resolved,lib.host resolved,lib.port resolved,lib.query resolved with
    | some scheme,some host,some port,some query =>
      if !schemeAllowed scheme conf.allowSchemes then (.wrongScheme,none)
      else if host.isEmpty then (.missingHost,none)
      else if !query.any (fun item => item.1 == ascii "streamid" && !item.2.isEmpty) then (.missingStreamid,none)
      else
        match net.resolve host port with
        | [] => (.dnsFailure,none)
        | first::rest =>
          match (first::rest).findSome? (denyAddr net conf bindAddresses) with
          | some reason => (reason,none)
          | none => (.ok,some first)
    | _,_,_,_ => (.invalidUrl,none)

/-- What the verdict `ok` rests on, check by check. -/
structure Passes (lib : CxxUrl) (net : Platform) (url : Text) (conf : AppConf) (bindAddresses : List Text)
    (host port : Text) (query : List (Text × Text)) (first : SockAddr) (rest : List SockAddr) : Prop where
  braces : hasStrayBrace url = false
  isScheme : ∃ scheme, lib.scheme (slsSubstituteStreamName url (ascii "streamname")) = some scheme
  isHost : lib.host (slsSubstituteStreamName url (ascii "streamname")) = some host
  isPort : lib.port (slsSubstituteStreamName url (ascii "streamname")) = some port
  isQuery : lib.query (slsSubstituteStreamName url (ascii "streamname")) = some query
  streamid : query.any (fun item => item.1 == ascii "streamid" && !item.2.isEmpty) = true
  answered : net.resolve host port = first::rest
  clear : ∀ addr ∈ first::rest, denyAddr net conf bindAddresses addr = none
  chosen : (validatePushUrl lib net url conf bindAddresses).2 = some first

theorem denyAddr_ne_ok (net : Platform) (conf : AppConf) (bindAddresses : List Text) (addr : SockAddr) :
    denyAddr net conf bindAddresses addr ≠ some .ok := by
  unfold denyAddr
  dsimp only
  split
  · simp
  · split <;> simp

theorem validatePushUrl_passes (lib : CxxUrl) (net : Platform) (url : Text) (conf : AppConf) (bindAddresses : List Text)
    (accepted : (validatePushUrl lib net url conf bindAddresses).1 = .ok) :
    ∃ host port query first rest, Passes lib net url conf bindAddresses host port query first rest := by
  have verdict : ∃ answer, validatePushUrl lib net url conf bindAddresses = answer := ⟨_,rfl⟩
  obtain ⟨answer,found⟩ := verdict
  rw [found] at accepted
  have computed := found
  unfold validatePushUrl at computed
  split at computed
  · cases computed
    cases accepted
  · split at computed
    · cases computed
      cases accepted
    · split at computed
      · cases computed
        cases accepted
      · rename_i braces
        dsimp only at computed
        split at computed
        · rename_i scheme host port query isScheme isHost isPort isQuery
          split at computed
          · cases computed
            cases accepted
          · split at computed
            · cases computed
              cases accepted
            · split at computed
              · cases computed
                cases accepted
              · rename_i streamid
                split at computed
                · cases computed
                  cases accepted
                · rename_i first rest answered
                  split at computed
                  · rename_i reason denied
                    -- a reason to deny is never the verdict `ok`
                    obtain ⟨addr,_,refused⟩ := List.exists_of_findSome?_eq_some denied
                    cases computed
                    cases accepted
                    exact absurd refused (denyAddr_ne_ok net conf bindAddresses addr)
                  · rename_i clear
                    cases computed
                    exact ⟨host,port,query,first,rest,by simpa using braces,⟨scheme,isScheme⟩,isHost,isPort,isQuery,
                      by simpa using streamid,answered,List.findSome?_eq_none_iff.mp clear,by rw [found]⟩
        · cases computed
          cases accepted

theorem validatePushUrl_ok (lib : CxxUrl) (net : Platform) (url : Text) (conf : AppConf) (bindAddresses : List Text)
    (accepted : (validatePushUrl lib net url conf bindAddresses).1 = .ok) :
    let resolved := slsSubstituteStreamName url (ascii "streamname")
    ∃ scheme host port query first rest, lib.scheme resolved = some scheme ∧ lib.host resolved = some host ∧
      lib.port resolved = some port ∧ lib.query resolved = some query ∧ net.resolve host port = first::rest ∧
      (validatePushUrl lib net url conf bindAddresses).2 = some first := by
  obtain ⟨host,port,query,first,rest,passes⟩ := validatePushUrl_passes lib net url conf bindAddresses accepted
  obtain ⟨scheme,isScheme⟩ := passes.isScheme
  exact ⟨scheme,host,port,query,first,rest,isScheme,passes.isHost,passes.isPort,passes.isQuery,passes.answered,
    passes.chosen⟩

/-- `CxxUrl` on texts `scheme://host[:port][/path][?query]` without user
information, address brackets or escapes. -/
def plainUrl : CxxUrl :=
  let after := fun (stop : UInt8) (text : Text) => (text.dropWhile (· != stop)).drop 1
  let authority := fun (url : Text) =>
    (((after (byte ':') url).drop 2).takeWhile fun b => b != byte '/' && b != byte '?' && b != byte '#')
  {scheme := fun url =>
      if (ascii "//").isPrefixOf (after (byte ':') url) then some (url.takeWhile (· != byte ':')) else none
   host := fun url => some ((authority url).takeWhile (· != byte ':'))
   port := fun url => some (after (byte ':') (authority url))
   query := fun url =>
      some ((tokens (· == byte '&') ((after (byte '?') url).takeWhile (· != byte '#'))).map fun item =>
        (item.takeWhile (· != byte '='),after (byte '=') item))}

end SrtLiveServer.PushUrl
