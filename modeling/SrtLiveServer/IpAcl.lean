import SrtLiveServer.Common
import SrtLiveServer.InetPton
import SrtLiveServer.PushAddress

/-! The IP access lists: the `allow` and `deny` lines of an app as the setter stores
them, the peer address as the socket hands it over, and the match of the two. The
lines are read a second time as rules over hosts, and the decision is compared. -/
namespace SrtLiveServer.IpAcl
open Bytes InetPton HostAddress PushUrl PushAddress

inductive Role where
  | play
  | publish
deriving DecidableEq

inductive Action where
  | accept
  | deny
deriving DecidableEq

inductive Family where
  | wildcard
  | v4
  | v6
deriving DecidableEq

structure IpAccess where
  ipAddress : BitVec 32
  ipAddress6 : BitVec 128
  family : Family
  action : Action
deriving DecidableEq

structure IpAccessLists where
  play : List IpAccess
  publish : List IpAccess
deriving DecidableEq

def IpAccessLists.select (acl : IpAccessLists) : Role → List IpAccess
  | .play => acl.play
  | .publish => acl.publish

def IpAccessLists.push (acl : IpAccessLists) (entry : IpAccess) : Role → IpAccessLists
  | .play => {acl with play := acl.play ++ [entry]}
  | .publish => {acl with publish := acl.publish ++ [entry]}

inductive ConfError where
  | outRange
  | wrongType
deriving DecidableEq

structure IpsetCmd where
  name : Text
  min : Nat
  max : Nat

def allow : IpsetCmd := ⟨ascii "allow",1,256⟩

def deny : IpsetCmd := ⟨ascii "deny",1,256⟩

def aclTarget (word : Text) : Option Role :=
  if word = ascii "play" then some .play else if word = ascii "publish" then some .publish else none

def aclAction (name : Text) : Option Action :=
  if name = ascii "allow" then some .accept else if name = ascii "deny" then some .deny else none

def aclAddress (word : Text) : Option (Action → IpAccess) :=
  if word = ascii "all" then some fun action => ⟨0,0,.wildcard,action⟩
  else match inetPton4 word with
    | some v => some fun action => ⟨v,0,.v4,action⟩
    | none => (inetPton6 word).map fun v action => ⟨0,v,.v6,action⟩

def confSetIpset (confLine : Text) (cmd : IpsetCmd) (acl : IpAccessLists) : Except ConfError IpAccessLists :=
  let line := cStr confLine
  if line.length < cmd.min ∨ cmd.max < line.length then .error .outRange
  else match tokens isTabOrSpace line with
    | [target,address] =>
      match aclTarget target,aclAddress address,aclAction cmd.name with
      | some role,some entry,some action => .ok (acl.push (entry action) role)
      | _,_,_ => .error .wrongType
    | _ => .error .wrongType

def confSetLines : List (IpsetCmd × Text) → IpAccessLists → Except ConfError IpAccessLists
  | [],acl => .ok acl
  | (cmd,line)::rest,acl => (confSetIpset line cmd acl).bind (confSetLines rest)

structure Srt where
  peerAddrRaw : BitVec 32
  peerAddr6Raw : BitVec 128
  isIpv6 : Bool
deriving DecidableEq

def Srt.fresh : Srt := ⟨0,0,false⟩

/-- `peername` is the answer of `srt_getpeername`; the two results are written
through references, so they keep the caller's values where nothing is written. -/
def libsrtGetpeeraddrRaw (srt : Srt) (peername : Option SockAddr) (address : BitVec 32) (address6 : BitVec 128) :
    Srt × Option (BitVec 32 × BitVec 128) :=
  if srt.peerAddrRaw = 0 ∧ srt.isIpv6 = false then
    match peername with
    | some (.inet v _) => ({srt with peerAddrRaw := v,isIpv6 := false},some (v,address6))
    | some (.inet6 v _) =>
      if v4Mapped v then ({srt with peerAddrRaw := v.setWidth 32,isIpv6 := false},some (v.setWidth 32,address6))
      else ({srt with peerAddr6Raw := v,isIpv6 := true},some (address,v))
    -- the lookup succeeded, so an unsupported family reports what the caller passed in
    | some (.other _) => (srt,some (address,address6))
    | none => (srt,none)
  else if srt.isIpv6 then (srt,some (address,srt.peerAddr6Raw))
  else (srt,some (srt.peerAddrRaw,address6))

inductive AclMatch where
  | accept
  | deny
  | noMatch
deriving DecidableEq

def IpAccess.matched (entry : IpAccess) (peerV4 : BitVec 32) (peerV6 : BitVec 128) (peerIsIpv6 : Bool) : Bool :=
  match entry.family with
  | .wildcard => true
  | .v4 => !peerIsIpv6 && entry.ipAddress == peerV4
  | .v6 => peerIsIpv6 && entry.ipAddress6 == peerV6

def checkIpAcl (peerV4 : BitVec 32) (peerV6 : BitVec 128) (peerIsIpv6 : Bool) : List IpAccess → AclMatch
  | [] => .noMatch
  | entry::rest =>
    if entry.matched peerV4 peerV6 peerIsIpv6 then
      match entry.action with
      | .accept => .accept
      | .deny => .deny
    else checkIpAcl peerV4 peerV6 peerIsIpv6 rest

/-- The access check of `handler` for a new connection: without a peer address the
connection is refused, without a match it is accepted. -/
def handlerAcl (acl : IpAccessLists) (role : Role) (peername : Option SockAddr) : Action :=
  match libsrtGetpeeraddrRaw Srt.fresh peername 0 0 with
  | (srt,some (address,address6)) =>
    match checkIpAcl address address6 srt.isIpv6 (acl.select role) with
    | .deny => .deny
    | .accept => .accept
    | .noMatch => .accept
  | (_,none) => .deny

inductive Address where
  | all
  | v4 (addr : BitVec 32)
  | v6 (addr : BitVec 128)
deriving DecidableEq

def Address.read (word : Text) : Option Address :=
  if word = ascii "all" then some .all else ((inetPton4 word).map .v4).or ((inetPton6 word).map .v6)

def Address.denotes : Address → Host → Bool
  | .all,_ => true
  | .v4 a,host => Host.v4 a = host
  | .v6 a,host => hostOf6 a = host

/-- Written as `::ffff:a.b.c.d`. -/
def Address.mapped : Address → Bool
  | .v6 a => v4Mapped a
  | _ => false

structure Rule where
  role : Role
  address : Address
  action : Action
deriving DecidableEq

def Rule.read (cmd : IpsetCmd) (line : Text) : Option Rule :=
  match tokens isTabOrSpace (cStr line) with
  | [target,address] => do pure ⟨← aclTarget target,← Address.read address,← aclAction cmd.name⟩
  | _ => none

def rulesOf (lines : List (IpsetCmd × Text)) : List Rule := lines.filterMap fun line => Rule.read line.1 line.2

def Rule.applies (role : Role) (host : Host) (rule : Rule) : Bool := rule.role = role && rule.address.denotes host

/-- The action of the first rule that applies, and accept where none does. -/
def decision (role : Role) (host : Host) (rules : List Rule) : Action :=
  ((rules.find? (Rule.applies role host)).map Rule.action).getD .accept

def Rule.plain (rule : Rule) : Bool := !rule.address.mapped

/-- If the first rule that applies is written in the mapped form, the first other
one that applies decides alike. -/
def MappedHarmless (role : Role) (host : Host) (rules : List Rule) : Prop :=
  ∀ rule, rules.find? (Rule.applies role host) = some rule → rule.address.mapped = true →
    rule.action = decision role host (rules.filter Rule.plain)

def Rule.entry (rule : Rule) : IpAccess :=
  match rule.address with
  | .all => ⟨0,0,.wildcard,rule.action⟩
  | .v4 a => ⟨a,0,.v4,rule.action⟩
  | .v6 a => ⟨0,a,.v6,rule.action⟩

theorem aclAddress_eq (word : Text) :
    aclAddress word = (Address.read word).map fun address action => (⟨.play,address,action⟩ : Rule).entry := by
  unfold aclAddress Address.read
  split
  · rfl
  · cases inetPton4 word with
    | some v => rfl
    | none => cases inetPton6 word <;> rfl

theorem IpAccessLists.select_push (acl : IpAccessLists) (entry : IpAccess) (target role : Role) :
    (acl.push entry target).select role = acl.select role ++ if target = role then [entry] else [] := by
  cases target <;> cases role <;> simp [IpAccessLists.push,IpAccessLists.select]

theorem confSetIpset_ok {line : Text} {cmd : IpsetCmd} {acl acl' : IpAccessLists}
    (stored : confSetIpset line cmd acl = .ok acl') :
    ∃ rule, Rule.read cmd line = some rule ∧ acl' = acl.push rule.entry rule.role := by
  unfold confSetIpset at stored
  unfold Rule.read
  dsimp only at stored
  split at stored
  · cases stored
  · split at stored
    · rename_i target address words
      rw [aclAddress_eq] at stored
      split at stored
      · rename_i role entry action isTarget isAddress isAction
        obtain ⟨written,isWritten,rfl⟩ := Option.map_eq_some_iff.mp isAddress
        refine ⟨⟨role,written,action⟩,by simp [isTarget,isWritten,isAction],?_⟩
        cases stored
        rfl
      · cases stored
    · cases stored

theorem confSetLines_select {lines : List (IpsetCmd × Text)} {acl acl' : IpAccessLists}
    (stored : confSetLines lines acl = .ok acl') (role : Role) :
    acl'.select role =
      acl.select role ++ ((rulesOf lines).filter fun rule => rule.role = role).map Rule.entry := by
  induction lines generalizing acl with
  | nil =>
    cases stored
    simp [rulesOf]
  | cons line rest ih =>
    obtain ⟨cmd,text⟩ := line
    rw [confSetLines] at stored
    cases first : confSetIpset text cmd acl with
    | error e =>
      rw [first] at stored
      cases stored
    | ok next =>
      rw [first] at stored
      obtain ⟨rule,isRule,rfl⟩ := confSetIpset_ok first
      have grown : rulesOf ((cmd,text)::rest) = rule::rulesOf rest := by simp [rulesOf,isRule]
      rw [ih stored,IpAccessLists.select_push,grown,List.append_assoc]
      by_cases same : rule.role = role
      · simp [same]
      · simp [same]

def Reports (host : Host) (address : BitVec 32) (address6 : BitVec 128) (isIpv6 : Bool) : Prop :=
  (host = .v4 address ∧ isIpv6 = false) ∨ (host = .v6 address6 ∧ isIpv6 = true ∧ v4Mapped address6 = false)

theorem getpeeraddrRaw_reports {peer : SockAddr} {host : Host} (isHost : SockAddr.host peer = some host) :
    ∃ srt address address6, libsrtGetpeeraddrRaw Srt.fresh (some peer) 0 0 = (srt,some (address,address6)) ∧
      Reports host address address6 srt.isIpv6 := by
  cases peer with
  | inet v port =>
    cases isHost
    exact ⟨_,_,_,rfl,.inl ⟨rfl,rfl⟩⟩
  | inet6 v port =>
    cases isHost
    cases mapped : v4Mapped v with
    | true =>
      refine ⟨⟨v.setWidth 32,0,false⟩,v.setWidth 32,0,?_,.inl ⟨?_,rfl⟩⟩
      · simp [libsrtGetpeeraddrRaw,Srt.fresh,mapped]
      · rw [hostOf6,if_pos mapped]
    | false =>
      refine ⟨⟨0,v,true⟩,0,v,?_,.inr ⟨?_,rfl,mapped⟩⟩
      · simp [libsrtGetpeeraddrRaw,Srt.fresh,mapped]
      · simp [hostOf6,mapped]
  | other family => cases isHost

/-- An entry written in the mapped form matches no peer at all: mapped peers have
become IPv4 peers by then. -/
theorem entry_matched {host : Host} {address : BitVec 32} {address6 : BitVec 128} {isIpv6 : Bool}
    (reports : Reports host address address6 isIpv6) (rule : Rule) :
    rule.entry.matched address address6 isIpv6 = (rule.address.denotes host && rule.plain) := by
  obtain ⟨role,written,action⟩ := rule
  obtain ⟨rfl,rfl⟩ | ⟨rfl,rfl,unmapped⟩ := reports
  · cases written with
    | all => rfl
    | v4 a =>
      rw [Bool.eq_iff_iff]
      simp [Rule.entry,IpAccess.matched,Address.denotes,Rule.plain,Address.mapped]
    | v6 a =>
      cases mapped : v4Mapped a <;>
        simp [Rule.entry,IpAccess.matched,Address.denotes,Rule.plain,Address.mapped,hostOf6,mapped]
  · cases written with
    | all => rfl
    | v4 a => simp [Rule.entry,IpAccess.matched,Address.denotes,Rule.plain,Address.mapped]
    | v6 a =>
      cases mapped : v4Mapped a with
      | true =>
        have other : a ≠ address6 := by
          rintro rfl
          rw [mapped] at unmapped
          cases unmapped
        simp [Rule.entry,IpAccess.matched,Address.denotes,Rule.plain,Address.mapped,mapped,other]
      | false =>
        rw [Bool.eq_iff_iff]
        simp [Rule.entry,IpAccess.matched,Address.denotes,Rule.plain,Address.mapped,hostOf6,mapped]

def AclMatch.action : AclMatch → Action
  | .deny => .deny
  | .accept => .accept
  | .noMatch => .accept

theorem entry_action (rule : Rule) : rule.entry.action = rule.action := by
  obtain ⟨role,written,action⟩ := rule
  cases written <;> rfl

theorem checkIpAcl_decision {host : Host} {address : BitVec 32} {address6 : BitVec 128} {isIpv6 : Bool}
    (reports : Reports host address address6 isIpv6) (role : Role) (rules : List Rule) :
    (checkIpAcl address address6 isIpv6 ((rules.filter fun rule => rule.role = role).map Rule.entry)).action =
      decision role host (rules.filter Rule.plain) := by
  induction rules with
  | nil => rfl
  | cons rule rest ih =>
    by_cases target : rule.role = role
    · rw [List.filter_cons_of_pos (by simpa using target),List.map_cons,checkIpAcl,entry_matched reports,entry_action]
      cases plain : rule.plain with
      | false =>
        rw [List.filter_cons_of_neg (by simp [plain])]
        simpa using ih
      | true =>
        rw [List.filter_cons_of_pos plain,Bool.and_true]
        cases denotes : rule.address.denotes host with
        | true =>
          have applies : rule.applies role host = true := by simp [Rule.applies,target,denotes]
          rw [decision,List.find?_cons_of_pos applies]
          cases isAction : rule.action <;> simp [AclMatch.action,isAction]
        | false =>
          have skips : ¬ rule.applies role host = true := by simp [Rule.applies,denotes]
          rw [decision,List.find?_cons_of_neg skips,if_neg Bool.false_ne_true,ih]
          rfl
    · rw [List.filter_cons_of_neg (by simpa using target),ih]
      cases plain : rule.plain with
      | false => rw [List.filter_cons_of_neg (by simp [plain])]
      | true =>
        have skips : ¬ rule.applies role host = true := by simp [Rule.applies,target]
        rw [List.filter_cons_of_pos plain,decision,decision,List.find?_cons_of_neg skips]

/-- The lines in the mapped form are without effect. -/
theorem handlerAcl_decision {lines : List (IpsetCmd × Text)} {acl : IpAccessLists}
    (accepted : confSetLines lines ⟨[],[]⟩ = .ok acl) (role : Role) {peer : SockAddr} {host : Host}
    (isHost : SockAddr.host peer = some host) :
    handlerAcl acl role (some peer) = decision role host ((rulesOf lines).filter Rule.plain) := by
  obtain ⟨srt,address,address6,answer,reports⟩ := getpeeraddrRaw_reports isHost
  have stored := confSetLines_select accepted role
  have empty : (⟨[],[]⟩ : IpAccessLists).select role = [] := by cases role <;> rfl
  rw [empty,List.nil_append] at stored
  rw [← checkIpAcl_decision reports,← stored,handlerAcl,answer]
  dsimp only
  cases checkIpAcl address address6 srt.isIpv6 (acl.select role) <;> rfl

theorem decision_plain {role : Role} {host : Host} {rules : List Rule} {rule : Rule}
    (first : rules.find? (Rule.applies role host) = some rule) (plain : rule.plain = true) :
    decision role host (rules.filter Rule.plain) = rule.action := by
  obtain ⟨applies,before,after,rfl,earlier⟩ := List.find?_eq_some_iff_append.mp first
  have none : (before.filter Rule.plain).find? (Rule.applies role host) = none := by
    rw [List.find?_eq_none]
    intro r member
    have skips := earlier r (List.mem_filter.mp member).1
    simpa using skips
  rw [decision,List.filter_append,List.find?_append,none,List.filter_cons_of_pos plain,
    List.find?_cons_of_pos applies]
  rfl

theorem decision_filter_iff (role : Role) (host : Host) (rules : List Rule) :
    decision role host (rules.filter Rule.plain) = decision role host rules ↔ MappedHarmless role host rules := by
  unfold MappedHarmless
  cases first : rules.find? (Rule.applies role host) with
  | none =>
    have rest : (rules.filter Rule.plain).find? (Rule.applies role host) = none := by
      rw [List.find?_eq_none] at first ⊢
      intro r member
      exact first r (List.mem_filter.mp member).1
    simp [decision,first,rest]
  | some rule =>
    have whole : decision role host rules = rule.action := by rw [decision,first]; rfl
    rw [whole]
    cases mapped : rule.address.mapped with
    | true =>
      constructor
      · rintro same r isFirst _
        cases isFirst
        exact same.symm
      · intro harmless
        exact (harmless rule rfl mapped).symm
    | false => simp [mapped,decision_plain first (by simp [Rule.plain,mapped])]

/-- The connection is decided by the first line that names its host exactly if the
lines written in the mapped form make no difference to that host. -/
theorem acl_decision_iff {lines : List (IpsetCmd × Text)} {acl : IpAccessLists}
    (accepted : confSetLines lines ⟨[],[]⟩ = .ok acl) (role : Role) {peer : SockAddr} {host : Host}
    (isHost : SockAddr.host peer = some host) :
    handlerAcl acl role (some peer) = decision role host (rulesOf lines) ↔
      MappedHarmless role host (rulesOf lines) := by
  rw [handlerAcl_decision accepted role isHost]
  exact decision_filter_iff role host (rulesOf lines)

def dualStackLines : List (IpsetCmd × Text) :=
  [(allow,ascii "publish 192.0.2.7"),(deny,ascii "publish\t2001:db8::1"),(deny,ascii "publish all")]

theorem acl_decision_iff_mapped_peer :
    handlerAcl
        ⟨[],[⟨0xc0000207,0,.v4,.accept⟩,⟨0,0x20010db8000000000000000000000001,.v6,.deny⟩,⟨0,0,.wildcard,.deny⟩]⟩
        .publish (some (.inet6 0xffffc0000207 5000)) =
      decision .publish (.v4 0xc0000207) (rulesOf dualStackLines) := by
  have accepted : confSetLines dualStackLines ⟨[],[]⟩ = .ok
      ⟨[],[⟨0xc0000207,0,.v4,.accept⟩,⟨0,0x20010db8000000000000000000000001,.v6,.deny⟩,⟨0,0,.wildcard,.deny⟩]⟩ := by decide
  refine (acl_decision_iff accepted .publish (by decide)).mpr ?_
  intro rule first mapped
  have isFirst : rule = ⟨.publish,.v4 0xc0000207,.accept⟩ := by
    have found : (rulesOf dualStackLines).find? (Rule.applies .publish (.v4 0xc0000207)) =
      some ⟨.publish,.v4 0xc0000207,.accept⟩ := by decide
    rw [found] at first
    exact (Option.some.inj first).symm
  subst isFirst
  cases mapped

/-- `deny publish ::ffff:192.0.2.7` is accepted and lets that host in. -/
theorem mapped_deny_never_matches :
    ¬ ∀ (lines : List (IpsetCmd × Text)) (acl : IpAccessLists), confSetLines lines ⟨[],[]⟩ = .ok acl →
      ∀ (role : Role) (peer : SockAddr) (host : Host), SockAddr.host peer = some host →
        handlerAcl acl role (some peer) = decision role host (rulesOf lines) := by
  intro claim
  have same := claim [(deny,ascii "publish ::ffff:192.0.2.7")] ⟨[],[⟨0,0xffffc0000207,.v6,.deny⟩]⟩ (by decide)
    .publish (.inet6 0xffffc0000207 5000) (.v4 0xc0000207) (by decide)
  revert same
  decide

end SrtLiveServer.IpAcl
