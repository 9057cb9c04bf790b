import SrtLiveServer.Common
import SrtLiveServer.StreamId
import SrtLiveServer.Transition
import SrtLiveServer.Trace

/-! The player side of `CSLSListener::handler` up to `finish_player_accept`: the
routing of a stream identifier, the separate detection that a player key is
required, the key's validation against the cache, and the deferred accepts a
worker tick completes. Webhook answers reach the machine as cache writes, and
rate limiting and the registered publishers are choices of the environment. -/
namespace SrtLiveServer.PlayerKeyGate
open Bytes StreamId Transition Trace

def sidSize : Nat := 1024
def maxPendingPlayerConnections : Nat := 1024

/-- What `init_conf_app` takes from a server block. An app is its player and its
publisher name. -/
structure Server where
  domainPlayers : List Text
  domainPublisher : Text
  apps : List (Text × Text)
  playerKeyAuthUrl : Text
  playerKeyAuthTimeout : Int
  playerKeyMinLength : Nat
  playerKeyMaxLength : Nat
  hasPuller : Bool

structure Listener where
  server : Server
  isPublisherListener : Bool
  isLegacyListener : Bool

def Server.appPlayers (server : Server) : List Text := server.apps.map Prod.fst

def keyApp (host app : Text) : Text := host ++ ascii "/" ++ app

/-- `m_map_live_2_uplive`: an entry is never replaced. -/
def Server.liveToUplive (server : Server) : List (Text × Text) :=
  server.apps.flatMap fun app =>
    server.domainPlayers.map fun domain => (keyApp domain app.1,keyApp server.domainPublisher app.2)

def Server.getUplive (server : Server) (key : Text) : Text := (server.liveToUplive.lookup key).getD []

structure CacheEntry where
  resolvedStreamId : Text
  isValid : Bool
  expiryTime : Int
  maxPlayersOverride : Option Int
deriving DecidableEq

abbrev Cache : Type := Text → Option CacheEntry

structure Connection where
  id : Nat
  sid : Text
deriving DecidableEq

structure PendingPlayerConnection where
  conn : Connection
  appUplive : Text
  playerKey : Text
  deadline : Int
deriving DecidableEq

inductive Event where
  | closed (conn : Connection)
  | held (conn : Connection) (key : Text)
  /-- `validate_player_key` returned `SLS_OK` for the key. -/
  | validated (conn : Connection) (key : Text)
  /-- The deferred path found an unexpired valid cache entry for the key. -/
  | foundValid (conn : Connection) (key : Text)
  | finishPlayerAccept (conn : Connection) (appUplive stream key : Text) (required : Bool)
  | publisherAccept (conn : Connection) (stream : Text)
deriving DecidableEq

structure State where
  cache : Cache
  pending : List PendingPlayerConnection
  nextId : Nat
  log : List Event

def State.start : State := ⟨fun _ => none,[],0,[]⟩

def State.emit (s : State) (events : List Event) : State := {s with log := s.log ++ events}

/-- What one `handler` call meets: a refusal before the identifier is read, the
time, the rate limiter's answer, and the streams that have a publisher. -/
structure Env where
  refused : Bool
  now : Int
  limited : Bool
  published : Text → Bool

inductive Validation where
  | ok (resolved : Text)
  | error
  | pending

/-- Length in range and printable ASCII throughout, as the compiled pattern says. -/
def Server.validatePlayerKeyFormat (server : Server) (key : Text) : Bool :=
  decide (server.playerKeyMinLength ≤ key.length ∧ key.length ≤ server.playerKeyMaxLength) &&
    key.all fun b => 0x20 ≤ b && b ≤ 0x7e

def Server.validatePlayerKey (server : Server) (cache : Cache) (key : Text) (limited : Bool) (now : Int) :
    Cache × Validation :=
  if server.playerKeyAuthUrl = [] then (cache,.error)
  else if !server.validatePlayerKeyFormat key then (cache,.error)
  else if limited then (cache,.error)
  else
    match cache key with
    | some entry =>
      if now < entry.expiryTime then
        if entry.isValid then (cache,.ok (strlcpy (cStr entry.resolvedStreamId) urlMaxLen)) else (cache,.error)
      else (Function.update cache key none,.pending)
    | none => (cache,.pending)

/-- The detection of a player key: `strtok` on the raw identifier, its first
three tokens trimmed and the first two matched with the configured names. -/
def Server.requiredKey (server : Server) (sid : Text) : Option Text :=
  match tokens (· == byte '/') sid with
  | domain::app::part::_ =>
    if slsTrim domain ∈ server.domainPlayers ∧ slsTrim app ∈ server.appPlayers ∧ server.playerKeyAuthUrl ≠ [] then
      some (slsTrim part)
    else none
  | _ => none

/-- The early refusal of a cached key whose stream has no publisher and no puller. -/
def Server.offlineCached (server : Server) (cache : Cache) (key : Text) (env : Env) : Bool :=
  match cache key with
  | some entry =>
    if env.now < entry.expiryTime && entry.isValid then
      let params := slsParseStreamid (strlcpy (cStr entry.resolvedStreamId) sidSize)
      match params (ascii "h"),params (ascii "sls_app"),params (ascii "r") with
      | some host,some app,some stream =>
        let uplive := server.getUplive (keyApp host app)
        !uplive.isEmpty && !env.published (keyApp uplive stream) && !server.hasPuller
      | _,_,_ => false
    else false
  | none => false

def Listener.allows (l : Listener) (appUplive : Text) : Bool :=
  l.isLegacyListener || l.isPublisherListener == appUplive.isEmpty

def State.accept (s : State) (conn : Connection) (appUplive stream key : Text) (required : Bool) : State :=
  if appUplive.isEmpty then s.emit [.publisherAccept conn stream]
  else s.emit [.finishPlayerAccept conn appUplive stream key required]

/-- The gated block of `handler`, entered with a required key. -/
def Server.validateAndAccept (server : Server) (s : State) (conn : Connection) (appUplive key : Text) (env : Env) :
    State :=
  if server.offlineCached s.cache key env then s.emit [.closed conn]
  else
    let checked := server.validatePlayerKey s.cache key env.limited env.now
    let s : State := {s with cache := checked.1}
    match checked.2 with
    | .pending =>
      if maxPendingPlayerConnections ≤ s.pending.length then s.emit [.closed conn]
      else
        let deadline := env.now + server.playerKeyAuthTimeout + 2000
        let s : State := {s with pending := s.pending ++ [⟨conn,appUplive,key,deadline⟩]}
        s.emit [.held conn key]
    | .error => s.emit [.closed conn]
    | .ok resolved =>
      let s := s.emit [.validated conn key]
      match route (strlcpy resolved sidSize) with
      | none => s.emit [.closed conn]
      | some r =>
        if urlMaxLen ≤ (keyApp r.host r.app).length then s.emit [.closed conn]
        else s.accept conn appUplive r.stream key true

def Listener.handler (l : Listener) (s : State) (sid : Text) (env : Env) : State :=
  let conn : Connection := ⟨s.nextId,sid⟩
  let s : State := {s with nextId := s.nextId + 1}
  if env.refused then s.emit [.closed conn]
  else
    match route sid with
    | none => s.emit [.closed conn]
    | some r =>
      let appUplive := l.server.getUplive (keyApp r.host r.app)
      if l.allows appUplive then
        match l.server.requiredKey sid with
        | some key => l.server.validateAndAccept s conn appUplive key env
        | none => s.accept conn appUplive r.stream [] false
      else s.emit [.closed conn]

def State.driveOne (now : Int) (s : State) (pend : PendingPlayerConnection) : State :=
  match (s.cache pend.playerKey).filter fun entry => decide (now < entry.expiryTime) with
  | some entry =>
    if entry.isValid then
      let s := s.emit [.foundValid pend.conn pend.playerKey]
      match route (strlcpy (cStr entry.resolvedStreamId) sidSize) with
      | some r => s.emit [.finishPlayerAccept pend.conn pend.appUplive r.stream pend.playerKey true]
      | none => s.emit [.closed pend.conn]
    else s.emit [.closed pend.conn]
  | none =>
    if pend.deadline ≤ now then s.emit [.closed pend.conn]
    else {s with pending := s.pending ++ [pend]}

def State.drivePendingPlayerConnections (s : State) (now : Int) : State :=
  s.pending.foldl (State.driveOne now) {s with pending := []}

inductive Label where
  | connect (sid : Text) (env : Env)
  | cache (key : Text) (entry : Option CacheEntry)
  | tick (now : Int)

def Listener.step (l : Listener) (s : State) : Label → State
  | .connect sid env => l.handler s sid env
  | .cache key entry => {s with cache := Function.update s.cache key entry}
  | .tick now => s.drivePendingPlayerConnections now

def Listener.machine (l : Listener) : Machine State Label := ⟨fun s label => some (l.step s label)⟩

/-- The key of a finished accept was validated, in the same call or by the
deferred path's lookup. -/
def Validated (past : List Event) (conn : Connection) (key : Text) : Prop :=
  .validated conn key ∈ past ∨ .foundValid conn key ∈ past

/-- In no run does a connection with this identifier reach `finish_player_accept`
before its player key was validated. -/
def Listener.Protects (l : Listener) (sid : Text) : Prop :=
  ∀ labels s before conn uplive stream key required after,
    l.machine.run State.start labels = some s →
    s.log = before ++ .finishPlayerAccept conn uplive stream key required::after →
    conn.sid = sid → Validated before conn key

def Server.Gates (server : Server) (r : Route) : Prop :=
  server.playerKeyAuthUrl ≠ [] ∧ r.host ∈ server.domainPlayers ∧ r.app ∈ server.appPlayers

/-- An accept finished without validation came with an identifier in which no
required key was detected. -/
def Server.Admissible (server : Server) (past : List Event) : Event → Prop
  | .finishPlayerAccept conn _ _ key _ => Validated past conn key ∨ server.requiredKey conn.sid = none
  | _ => True

theorem State.accept_log (s : State) (conn : Connection) (appUplive stream key : Text) (required : Bool) :
    ∃ event, (s.accept conn appUplive stream key required).log = s.log ++ [event] ∧
      ((∃ name, event = .publisherAccept conn name) ∨
        event = .finishPlayerAccept conn appUplive stream key required) := by
  unfold State.accept
  split
  · exact ⟨_,rfl,Or.inl ⟨_,rfl⟩⟩
  · exact ⟨_,rfl,Or.inr rfl⟩

private theorem admissible_finish (server : Server) (past : List Event) (event : Event) (conn : Connection)
    (uplive stream key : Text) (required : Bool)
    (known : (∃ name, event = .publisherAccept conn name) ∨ event = .finishPlayerAccept conn uplive stream key required)
    (reason : Validated past conn key ∨ server.requiredKey conn.sid = none) : server.Admissible past event := by
  rcases known with ⟨name,rfl⟩ | rfl
  · trivial
  · exact reason

theorem Server.validateAndAccept_admissible (server : Server) (s : State) (conn : Connection)
    (appUplive key : Text) (env : Env) :
    ∃ added, (server.validateAndAccept s conn appUplive key env).log = s.log ++ added ∧
      Justified server.Admissible s.log added := by
  unfold Server.validateAndAccept
  dsimp only
  split
  · exact ⟨[.closed conn],rfl,trivial,trivial⟩
  · split
    · split
      · exact ⟨[.closed conn],rfl,trivial,trivial⟩
      · exact ⟨[.held conn key],rfl,trivial,trivial⟩
    · exact ⟨[.closed conn],rfl,trivial,trivial⟩
    · split
      · exact ⟨[.validated conn key,.closed conn],by simp [State.emit],trivial,trivial,trivial⟩
      · split
        · exact ⟨[.validated conn key,.closed conn],by simp [State.emit],trivial,trivial,trivial⟩
        · rename_i r _ _
          obtain ⟨event,logged,known⟩ := State.accept_log
            (State.emit {s with cache := (server.validatePlayerKey s.cache key env.limited env.now).1}
              [.validated conn key]) conn appUplive r.stream key true
          refine ⟨[.validated conn key,event],?_,trivial,?_,trivial⟩
          · rw [logged]
            simp [State.emit]
          · -- the event just logged is the validation this accept rests on
            exact admissible_finish server _ event conn appUplive r.stream key true known
              (Or.inl (Or.inl (by simp)))

theorem Listener.handler_admissible (l : Listener) (s : State) (sid : Text) (env : Env) :
    ∃ added, (l.handler s sid env).log = s.log ++ added ∧ Justified l.server.Admissible s.log added := by
  unfold Listener.handler
  dsimp only
  split
  · exact ⟨[.closed _],rfl,trivial,trivial⟩
  · split
    · exact ⟨[.closed _],rfl,trivial,trivial⟩
    · split
      · split
        · exact l.server.validateAndAccept_admissible {s with nextId := s.nextId + 1} _ _ _ env
        · rename_i r _ _ _ undetected
          obtain ⟨event,logged,known⟩ := State.accept_log {s with nextId := s.nextId + 1} ⟨s.nextId,sid⟩
            (l.server.getUplive (keyApp r.host r.app)) r.stream [] false
          exact ⟨[event],logged,admissible_finish l.server _ event _ _ _ _ _ known (Or.inr undetected),trivial⟩
      · exact ⟨[.closed _],rfl,trivial,trivial⟩

theorem State.driveOne_admissible (server : Server) (now : Int) (s : State) (pend : PendingPlayerConnection) :
    ∃ added, (s.driveOne now pend).log = s.log ++ added ∧ Justified server.Admissible s.log added := by
  unfold State.driveOne
  split
  · split
    · dsimp only
      split
      · rename_i r _
        exact ⟨[.foundValid pend.conn pend.playerKey,
          .finishPlayerAccept pend.conn pend.appUplive r.stream pend.playerKey true],
          by simp [State.emit],trivial,Or.inl (Or.inr (by simp)),trivial⟩
      · exact ⟨[.foundValid pend.conn pend.playerKey,.closed pend.conn],by simp [State.emit],trivial,trivial,trivial⟩
    · exact ⟨[.closed pend.conn],rfl,trivial,trivial⟩
  · split
    · exact ⟨[.closed pend.conn],rfl,trivial,trivial⟩
    · exact ⟨[],by simp,trivial⟩

theorem State.drive_admissible (server : Server) (now : Int) (pending : List PendingPlayerConnection) (s : State)
    (admissible : Justified server.Admissible [] s.log) :
    Justified server.Admissible [] (pending.foldl (State.driveOne now) s).log := by
  induction pending generalizing s with
  | nil => exact admissible
  | cons pend pending ih =>
    apply ih
    obtain ⟨added,logged,reasons⟩ := s.driveOne_admissible server now pend
    rw [logged]
    exact admissible.append reasons

theorem Listener.keeps_admissible (l : Listener) :
    l.machine.Keeps (fun _ _ => True) fun s => Justified l.server.Admissible [] s.log := by
  intro s label next admissible _ stepped
  cases Option.some.inj stepped
  cases label with
  | connect sid env =>
    obtain ⟨added,logged,reasons⟩ := l.handler_admissible s sid env
    change Justified _ _ (l.handler s sid env).log
    rw [logged]
    exact admissible.append reasons
  | cache key entry => exact admissible
  | tick now => exact State.drive_admissible l.server now s.pending {s with pending := []} admissible

theorem Listener.protects_of_required (l : Listener) (sid key : Text) (required : l.server.requiredKey sid = some key) :
    l.Protects sid := by
  intro labels s before conn uplive stream used flag after ran logged same
  have initial : Justified l.server.Admissible [] State.start.log := trivial
  have admissible := l.keeps_admissible.run_all initial ran
  rw [logged] at admissible
  have reason := admissible.at
  rcases reason with validated | undetected
  · exact validated
  · rw [same,required] at undetected
    cases undetected

theorem Server.getUplive_ne_nil (server : Server) (host app : Text) (domain : host ∈ server.domainPlayers)
    (player : app ∈ server.appPlayers) : server.getUplive (keyApp host app) ≠ [] := by
  obtain ⟨pair,configured,rfl⟩ := List.mem_map.mp player
  have listed : (keyApp host pair.1,keyApp server.domainPublisher pair.2) ∈ server.liveToUplive :=
    List.mem_flatMap.mpr ⟨pair,configured,List.mem_map.mpr ⟨host,domain,rfl⟩⟩
  unfold Server.getUplive
  cases found : server.liveToUplive.lookup (keyApp host pair.1) with
  | none =>
    have absent := List.lookup_eq_none_iff.mp found _ listed
    simp at absent
  | some uplive =>
    obtain ⟨before,after,entries,_⟩ := List.lookup_eq_some_iff.mp found
    have member : (keyApp host pair.1,uplive) ∈ server.liveToUplive := by simp [entries]
    obtain ⟨other,_,inside⟩ := List.mem_flatMap.mp member
    obtain ⟨_,_,same⟩ := List.mem_map.mp inside
    cases (Prod.mk.inj same).2
    simp [keyApp,ascii]

/-- The two leading `/`-tokens of the raw identifier are a configured player
domain and application, and a third token follows. -/
def Server.Detects (server : Server) (sid : Text) : Prop :=
  ∃ domain app part more, tokens (· == byte '/') sid = domain::app::part::more ∧
    slsTrim domain ∈ server.domainPlayers ∧ slsTrim app ∈ server.appPlayers

theorem Server.requiredKey_eq_none (server : Server) (sid : Text) (gated : server.playerKeyAuthUrl ≠ []) :
    server.requiredKey sid = none ↔ ¬ server.Detects sid := by
  unfold Server.requiredKey Server.Detects
  split
  · rename_i domain app part more found
    split
    · rename_i configured
      constructor
      · intro absent
        cases absent
      · intro undetected
        exact absurd ⟨domain,app,part,more,found,configured.1,configured.2.1⟩ undetected
    · rename_i unconfigured
      refine ⟨fun _ => ?_,fun _ => rfl⟩
      rintro ⟨domain',app',part',more',found',isDomain,isApp⟩
      rw [found] at found'
      cases found'
      exact unconfigured ⟨isDomain,isApp,gated⟩
  · rename_i short
    refine ⟨fun _ => ?_,fun _ => rfl⟩
    rintro ⟨domain,app,part,more,found,_⟩
    exact short domain app part more found

theorem Server.Gates.detects {server : Server} {r : Route} (gates : server.Gates r) (sid : Text)
    (slash : keyValueForm sid = false) (routed : route sid = some r) : server.Detects sid := by
  obtain ⟨host,app,stream,more,found,isHost,isApp,_⟩ := route_slash_tokens sid r slash routed
  exact ⟨host,app,stream,more,found,isHost ▸ gates.2.1,isApp ▸ gates.2.2⟩

theorem Listener.handler_bypass (l : Listener) (sid : Text) (r : Route) (players : l.isLegacyListener = true ∨
    l.isPublisherListener = false) (routed : route sid = some r) (gates : l.server.Gates r)
    (undetected : l.server.requiredKey sid = none) :
    (l.handler State.start sid ⟨false,0,false,fun _ => false⟩).log =
      [.finishPlayerAccept ⟨0,sid⟩ (l.server.getUplive (keyApp r.host r.app)) r.stream [] false] := by
  have uplive := l.server.getUplive_ne_nil r.host r.app gates.2.1 gates.2.2
  have allowed : l.allows (l.server.getUplive (keyApp r.host r.app)) = true := by
    rcases players with legacy | port
    · simp [Listener.allows,legacy]
    · simp [Listener.allows,port,uplive]
  simp [Listener.handler,routed,allowed,undetected,State.accept,uplive,State.emit,State.start]

/-- On a port that takes players, an identifier routed to a gated application is
protected exactly if it is not in the `#!::` syntax, or its raw text happens to
start with a player domain and application as well. -/
theorem player_key_gate (l : Listener) (sid : Text) (r : Route) (players : l.isLegacyListener = true ∨
    l.isPublisherListener = false) (routed : route sid = some r) (gates : l.server.Gates r) :
    l.Protects sid ↔ keyValueForm sid = false ∨ l.server.Detects sid := by
  constructor
  · intro protects
    by_contra neither
    rw [not_or] at neither
    have undetected := (l.server.requiredKey_eq_none sid gates.1).mpr neither.2
    have log := l.handler_bypass sid r players routed gates undetected
    have validated := protects [.connect sid ⟨false,0,false,fun _ => false⟩] _ [] _ _ _ _ _ [] rfl log rfl
    simp [Validated] at validated
  · intro condition
    have detects : l.server.Detects sid := by
      rcases condition with slash | detects
      · exact gates.detects sid slash routed
      · exact detects
    cases required : l.server.requiredKey sid with
    | none => exact absurd detects ((l.server.requiredKey_eq_none sid gates.1).mp required)
    | some key => exact l.protects_of_required sid key required

def gatedListener : Listener where
  server := {
    domainPlayers := [ascii "play"]
    domainPublisher := ascii "publish"
    apps := [(ascii "live",ascii "live")]
    playerKeyAuthUrl := ascii "http://auth"
    playerKeyAuthTimeout := 2000
    playerKeyMinLength := 8
    playerKeyMaxLength := 64
    hasPuller := false}
  isPublisherListener := false
  isLegacyListener := false

theorem player_key_gate_slash : gatedListener.Protects (ascii "play/live/secretkey") := by
  have routed : route (ascii "play/live/secretkey") =
      some ⟨ascii "play",ascii "live",ascii "secretkey",by decide⟩ := by decide
  exact (player_key_gate gatedListener _ _ (Or.inr rfl) routed ⟨by decide,by decide,by decide⟩).mpr
    (Or.inl (by decide))

theorem key_value_form_bypasses_gate :
    ¬ ∀ (l : Listener) (sid : Text) (r : Route), (l.isLegacyListener = true ∨ l.isPublisherListener = false) →
      route sid = some r → l.server.Gates r → l.Protects sid := by
  intro claim
  have routed : route (ascii "#!::h=play,sls_app=live,r=x") =
      some ⟨ascii "play",ascii "live",ascii "x",by decide⟩ := by decide
  have gates : gatedListener.server.Gates ⟨ascii "play",ascii "live",ascii "x",by decide⟩ :=
    ⟨by decide,by decide,by decide⟩
  have protects := claim gatedListener _ _ (Or.inr rfl) routed gates
  have undetected : gatedListener.server.requiredKey (ascii "#!::h=play,sls_app=live,r=x") = none := by decide
  have log := gatedListener.handler_bypass _ _ (Or.inr rfl) routed gates undetected
  have validated := protects [.connect _ ⟨false,0,false,fun _ => false⟩] _ [] _ _ _ _ _ [] rfl log rfl
  simp [Validated] at validated

end SrtLiveServer.PlayerKeyGate
