import SrtLiveServer.PlayerAccept
import SrtLiveServer.PublisherAuth

/-! Who holds an accepted socket. One listener with every way out of `handler`,
`finish_player_accept`, `finish_publisher_accept` and the two loops over pending
connections, its teardown, and the workers that have its roles. `handler` takes
no lock, so a teardown may fall between its `libsrt_accept` and its end. -/
namespace SrtLiveServer.ListenerSockets
open Bytes StreamId PlayerKeyGate PlayerAccept Transition
open PublisherAuth (Role AsyncHttpResponse maxPendingPublisherConnections)

def maxHandoffBacklog : Nat := 4096

structure Listener where
  gate : PlayerKeyGate.Listener
  latencyMin : Int
  latencyMax : Int
  httpUrlRole : Text

structure PendingPlayer extends Held where
  deadline : Int
deriving DecidableEq

/-- The publisher holds the socket while its `srt` is set. -/
structure PendingPublisher where
  srt : Nat
  publisher : Role
deriving DecidableEq

structure HandedRole where
  key : Text
  srt : Option Nat
deriving DecidableEq

/-- Sockets are numbered as they are accepted; `closed` has one item for each
`libsrt_close` with its `delete`. -/
structure State where
  /-- `m_srt` is set and valid. -/
  listening : Bool
  uninited : Bool
  cache : Cache
  created : Nat
  /-- The socket of the `handler` call under way. -/
  running : Option Nat
  pendingPlayers : List PendingPlayer
  pendingPublishers : List PendingPublisher
  roles : List HandedRole
  closed : List Nat

def State.start : State where
  listening := true
  uninited := false
  cache := fun _ => none
  created := 0
  running := none
  pendingPlayers := []
  pendingPublishers := []
  roles := []
  closed := []

/-- What the publisher side of `handler` and `finish_publisher_accept` meet. -/
structure Publication where
  configured : Text → Bool
  aclAccepts : Bool
  threw : Bool
  incumbent : Text → Bool
  /-- `set_push_2_publisher` succeeds. -/
  inserted : Bool

/-- What one `handler` call meets, in the order it asks; `none` is a failed read. -/
structure Encounter where
  peer : Option (Text × Nat)
  handoffBacklog : Nat
  latency : Option Int
  streamid : Option Text
  sessionId : Text
  curTime : Text
  strdup : Bool
  now : Nat
  limited : Bool
  published : Text → Bool
  player : Surroundings
  publisher : Publication

structure TickEnv where
  now : Nat
  player : Nat → Surroundings
  publisher : Nat → Publication

def State.close (s : State) (srt : Nat) : State := {s with closed := s.closed ++ [srt]}

def State.hold (s : State) (pending : PendingPlayer) : State := {s with pendingPlayers := s.pendingPlayers ++ [pending]}

def State.holdPublisher (s : State) (pending : PendingPublisher) : State :=
  {s with pendingPublishers := s.pendingPublishers ++ [pending]}

def State.push (s : State) (role : HandedRole) : State := {s with roles := s.roles ++ [role]}

def PendingPublisher.socket (pending : PendingPublisher) : Option Nat :=
  if pending.publisher.srt then some pending.srt else none

/-- A call turned the role into `after`: where that took its socket, `invalid_srt`
closed and freed it. -/
def State.released (s : State) (pending : PendingPublisher) (after : Role) : State :=
  if pending.publisher.srt && !after.srt then s.close pending.srt else s

def State.uninitPublisher (s : State) (pending : PendingPublisher) : State :=
  s.released pending pending.publisher.uninit

def State.finishPlayerAccept (s : State) (args : Args) (around : Surroundings) : State :=
  match args.finishPlayerAccept around with
  | none => s.close args.srt
  | some player => s.push ⟨player.mapDataKey,some args.srt⟩

def State.finishPublisherAccept (s : State) (pending : PendingPublisher) (around : Publication) : State :=
  if around.incumbent pending.publisher.key then s.uninitPublisher pending
  else if !around.inserted then s.uninitPublisher pending
  else s.push ⟨pending.publisher.key,pending.socket⟩

/-- The poll shared by `handler` and `drive_pending_publisher_connections`. -/
def State.pollPublisher (s : State) (pending : PendingPublisher) (now : Nat) (around : Publication) : State :=
  let (check,checked) := pending.publisher.checkHttpPassed now
  let polled := s.released pending checked
  if check.isOk then polled.finishPublisherAccept ⟨pending.srt,checked⟩ around
  else if checked.state = .invalid then polled.uninitPublisher ⟨pending.srt,checked⟩
  -- a refusal closed the socket and left the state: the next poll finds no request
  else polled.holdPublisher ⟨pending.srt,checked⟩

def Listener.finalLatency (l : Listener) : Option Int → Option Int
  | none => some (if 0 < l.latencyMin then l.latencyMin else 120)
  | some negotiated => if 0 < l.latencyMax ∧ l.latencyMax < negotiated then none else some negotiated

def Listener.acceptPublisher (l : Listener) (s : State) (srt : Nat) (appUplive stream sid : Text) (peer : Text × Nat)
    (env : Encounter) : State :=
  let key := strlcpy (keyApp appUplive stream) urlMaxLen
  if !env.publisher.configured appUplive then s.close srt
  else if !env.publisher.aclAccepts then s.close srt
  else if l.httpUrlRole ≠ [] ∧ maxPendingPublisherConnections ≤ s.pendingPublishers.length then s.close srt
  else if l.httpUrlRole ≠ [] ∧ ∃ pending ∈ s.pendingPublishers, pending.publisher.key = key then s.close srt
  else
    let role := (Role.accepted key sid peer.1 peer.2).setHttpUrl l.httpUrlRole
    match role.onConnect srt env.publisher.threw env.now with
    | none => s.uninitPublisher ⟨srt,role⟩
    | some (asked,_) => s.pollPublisher ⟨srt,asked⟩ env.now env.publisher

def Listener.conclude (l : Listener) (s : State) (srt : Nat) (peer : Text × Nat) (env : Encounter) : Outcome → State
  | .reject => s.close srt
  | .finish args => s.finishPlayerAccept args env.player
  | .publisher appUplive stream sid => l.acceptPublisher s srt appUplive stream sid peer env

def Listener.validateAndAccept (l : Listener) (s : State) (held : Held) (peer : Text × Nat) (env : Encounter) : State :=
  let gate : Env := ⟨false,env.now,env.limited,env.published⟩
  if l.gate.server.offlineCached s.cache held.playerKey gate then s.close held.srt
  else
    let checked := l.gate.server.validatePlayerKey s.cache held.playerKey env.limited env.now
    let s := {s with cache := checked.1}
    match checked.2 with
    | .pending =>
      if maxPendingPlayerConnections ≤ s.pendingPlayers.length then s.close held.srt
      else s.hold ⟨held,env.now + l.gate.server.playerKeyAuthTimeout + 2000⟩
    | .error => s.close held.srt
    -- the buffer is a C string that fits already, so the copies in `Held.handler` keep it
    | .ok resolved => l.conclude s held.srt peer env (held.handler resolved)

/-- `handler` after `libsrt_accept` gave it the socket. -/
def Listener.handler (l : Listener) (s : State) (srt : Nat) (env : Encounter) : State :=
  match env.peer with
  | none => s.close srt
  | some peer =>
    if maxHandoffBacklog ≤ env.handoffBacklog then s.close srt
    else match l.finalLatency env.latency with
    | none => s.close srt
    | some latency => match env.streamid with
      | none => s.close srt
      | some sid =>
        if sid = [] then s.close srt
        else match route sid with
        | none => s.close srt
        | some r =>
          let appUplive := l.gate.server.getUplive (keyApp r.host r.app)
          if !l.gate.allows appUplive then s.close srt
          else if !env.strdup then s.close srt
          else match l.gate.server.requiredKey sid with
          | some key =>
            l.validateAndAccept s ⟨srt,appUplive,key,peer.1,peer.2,latency,env.sessionId,env.curTime⟩ peer env
          | none =>
            l.conclude s srt peer env
              (if appUplive.isEmpty then .publisher (keyApp r.host r.app) r.stream sid
              else .finish ⟨srt,appUplive,r.stream,sid,[],false,peer.1,peer.2,latency,env.sessionId,env.curTime⟩)

def State.drivePublisher (env : TickEnv) (s : State) (pending : PendingPublisher) : State :=
  s.pollPublisher pending env.now (env.publisher pending.srt)

def State.drivePendingPublisherConnections (s : State) (env : TickEnv) : State :=
  s.pendingPublishers.foldl (State.drivePublisher env) {s with pendingPublishers := []}

def State.drivePlayer (env : TickEnv) (s : State) (pending : PendingPlayer) : State :=
  match (s.cache pending.playerKey).filter fun entry => decide ((env.now : Int) < entry.expiryTime) with
  | some entry =>
    if entry.isValid then
      match pending.drivePending entry.resolvedStreamId with
      | .finish args => s.finishPlayerAccept args (env.player pending.srt)
      | _ => s.close pending.srt
    else s.close pending.srt
  | none => if pending.deadline ≤ env.now then s.close pending.srt else s.hold pending

def State.drivePendingPlayerConnections (s : State) (env : TickEnv) : State :=
  s.pendingPlayers.foldl (State.drivePlayer env) {s with pendingPlayers := []}

/-- `on_worker_tick`; what its sweep and its drain write is in the cache already. -/
def State.onWorkerTick (s : State) (env : TickEnv) : State :=
  if !s.listening then s
  else (s.drivePendingPublisherConnections env).drivePendingPlayerConnections env

def State.uninit (s : State) : State :=
  let closed := s.pendingPublishers.foldl State.uninitPublisher {s with pendingPublishers := []}
  {closed with listening := false,uninited := true}

inductive Label where
  /-- `handler` up to a `libsrt_accept` that succeeds. -/
  | accept
  /-- The rest of the `handler` call under way. -/
  | handler (env : Encounter)
  /-- A player-key answer or a sweep changes the cache. -/
  | cache (key : Text) (entry : Option CacheEntry)
  | complete (srt : Nat) (response : AsyncHttpResponse)
  | tick (env : TickEnv)
  /-- A worker or the role list tears a role down: `get_state`, `mark_invalid`,
  `uninit` and the destructor all go through `invalid_srt`. -/
  | invalidSrt (role : Nat)
  | invalidate
  | uninit

def PendingPublisher.complete (srt : Nat) (response : AsyncHttpResponse) (pending : PendingPublisher) : PendingPublisher :=
  match pending.publisher.httpFuture with
  | some ⟨event,none⟩ =>
    if pending.srt = srt then {pending with publisher := {pending.publisher with httpFuture := some ⟨event,some response⟩}}
    else pending
  | _ => pending

/-- `handler` and the tick are calls of one worker; the rest may come at any time. -/
def Listener.step (l : Listener) (s : State) : Label → Option State
  | .accept =>
    if s.listening ∧ s.running = none then some {s with created := s.created + 1,running := some s.created} else none
  | .handler env => s.running.map fun srt => l.handler {s with running := none} srt env
  | .cache key entry => some {s with cache := Function.update s.cache key entry}
  | .complete srt response =>
    some {s with pendingPublishers := s.pendingPublishers.map (PendingPublisher.complete srt response)}
  | .tick env => if s.running = none then some (s.onWorkerTick env) else none
  | .invalidSrt role => s.roles[role]?.map fun handed =>
      {s with roles := s.roles.set role {handed with srt := none},closed := s.closed ++ handed.srt.toList}
  | .invalidate => some {s with listening := false}
  | .uninit => some s.uninit

def Listener.machine (l : Listener) : Machine State Label := ⟨l.step⟩

inductive Owner where
  | handler
  | pendingPlayer (entry : PendingPlayer)
  | pendingPublisher (entry : PendingPublisher)
  | role (role : HandedRole)
deriving DecidableEq

def Owner.isPending : Owner → Bool
  | .pendingPlayer _ | .pendingPublisher _ => true
  | _ => false

/-- Every place that holds the socket, with repetitions. -/
def State.owners (s : State) (srt : Nat) : List Owner :=
  (s.running.toList.filter (· = srt)).map (fun _ => .handler) ++
    (s.pendingPlayers.filter (·.srt = srt)).map .pendingPlayer ++
    (s.pendingPublishers.filter (·.socket = some srt)).map .pendingPublisher ++
    (s.roles.filter (·.srt = some srt)).map .role

/-- Each accepted socket is closed at most once, and has exactly one owner until
it is closed and none after. -/
def State.Linear (s : State) : Prop :=
  ∀ srt < s.created, s.closed.count srt ≤ 1 ∧ (srt ∉ s.closed → ∃ owner, s.owners srt = [owner]) ∧
    (srt ∈ s.closed → s.owners srt = [])

/-- After `uninit` no pending entry holds an open socket. -/
def State.Settled (s : State) : Prop := s.uninited = true → ∀ srt, ∀ owner ∈ s.owners srt, owner.isPending = false

def State.stake (s : State) (srt : Nat) : Nat := (s.owners srt).length + s.closed.count srt

def State.Ready (s : State) : Prop := ∀ pending ∈ s.pendingPublishers, pending.publisher.state = .inited

/-- On the way to `next` each of the `given` sockets found one place, and no other
moved. -/
structure State.Takes (s next : State) (given : List Nat) : Prop where
  created : next.created = s.created
  uninited : next.uninited = s.uninited
  stake : ∀ srt, next.stake srt = s.stake srt + given.count srt
  ready : s.Ready → next.Ready

theorem filter_holding {α : Type} (socket : α → Option Nat) (srt : Nat) (list : List α) :
    (list.filter fun item => socket item = some srt).length = (list.filterMap socket).count srt := by
  induction list with
  | nil => rfl
  | cons item rest ih =>
    cases held : socket item with
    | none =>
      rw [List.filterMap_cons_none held,List.filter_cons_of_neg (by simp [held])]
      exact ih
    | some other =>
      rw [List.filterMap_cons_some held,List.count_cons]
      by_cases same : other = srt
      · rw [List.filter_cons_of_pos (by simp [held,same]),List.length_cons,ih]
        simp [same]
      · rw [List.filter_cons_of_neg (by simp [held,same]),ih]
        simp [same]

theorem State.stake_eq (s : State) (srt : Nat) :
    s.stake srt = s.running.toList.count srt + (s.pendingPlayers.map (·.srt)).count srt +
      (s.pendingPublishers.filterMap (·.socket)).count srt + (s.roles.filterMap (·.srt)).count srt + s.closed.count srt := by
  have running := filter_holding some srt s.running.toList
  have players := filter_holding (fun entry : PendingPlayer => some entry.srt) srt s.pendingPlayers
  have publishers := filter_holding PendingPublisher.socket srt s.pendingPublishers
  have roles := filter_holding HandedRole.srt srt s.roles
  simp only [Option.some.injEq,List.filterMap_some,List.filterMap_eq_map'] at running players
  unfold State.stake State.owners
  simp only [List.length_append,List.length_map]
  rw [running,players,publishers,roles]

section Takes

variable {s middle next : State} {first second : List Nat}

theorem State.Takes.refl (s : State) : s.Takes s [] := ⟨rfl,rfl,fun _ => rfl,id⟩

theorem State.Takes.trans (before : s.Takes middle first) (after : middle.Takes next second) :
    s.Takes next (first ++ second) := by
  refine ⟨after.created.trans before.created,after.uninited.trans before.uninited,?_,fun ready => after.ready (before.ready ready)⟩
  intro srt
  rw [after.stake,before.stake,List.count_append,Nat.add_assoc]

theorem State.cache_takes (s : State) (cache : Cache) : s.Takes {s with cache := cache} [] := ⟨rfl,rfl,fun _ => rfl,id⟩

theorem State.close_takes (s : State) (srt : Nat) : s.Takes (s.close srt) [srt] := by
  refine ⟨rfl,rfl,?_,id⟩
  intro other
  rw [State.stake_eq,State.stake_eq,State.close,List.count_append]
  exact (Nat.add_assoc ..).symm

theorem State.hold_takes (s : State) (pending : PendingPlayer) : s.Takes (s.hold pending) [pending.srt] := by
  refine ⟨rfl,rfl,?_,id⟩
  intro other
  rw [State.stake_eq,State.stake_eq,State.hold,List.map_append,List.count_append,List.map_singleton]
  dsimp only
  omega

theorem filterMap_one {α : Type} (socket : α → Option Nat) (item : α) : [item].filterMap socket = (socket item).toList := by
  cases held : socket item with
  | none =>
    rw [List.filterMap_cons_none held]
    rfl
  | some srt =>
    rw [List.filterMap_cons_some held]
    rfl

theorem State.holdPublisher_takes (s : State) (pending : PendingPublisher) (live : pending.publisher.state = .inited) :
    s.Takes (s.holdPublisher pending) pending.socket.toList where
  created := rfl
  uninited := rfl
  stake other := by
    rw [State.stake_eq,State.stake_eq,State.holdPublisher,List.filterMap_append,List.count_append,filterMap_one]
    dsimp only
    omega
  ready held := by
    intro entry member
    rcases List.mem_append.mp member with before | last
    · exact held entry before
    · rw [List.mem_singleton.mp last]
      exact live

theorem State.push_takes (s : State) (role : HandedRole) : s.Takes (s.push role) role.srt.toList := by
  refine ⟨rfl,rfl,?_,id⟩
  intro other
  rw [State.stake_eq,State.stake_eq,State.push,List.filterMap_append,List.count_append,filterMap_one]
  dsimp only
  omega

theorem State.Takes.released {pending : PendingPublisher} {after : Role}
    (shrinks : after.srt = true → pending.publisher.srt = true)
    (rest : (s.released pending after).Takes next (PendingPublisher.socket ⟨pending.srt,after⟩).toList) :
    s.Takes next pending.socket.toList := by
  unfold State.released at rest
  unfold PendingPublisher.socket at rest ⊢
  cases before : pending.publisher.srt with
  | false =>
    cases shut : after.srt with
    | true =>
      rw [shrinks shut] at before
      cases before
    | false =>
      rw [before,shut] at rest
      exact rest
  | true =>
    cases shut : after.srt with
    | true =>
      rw [before,shut] at rest
      exact rest
    | false =>
      rw [before,shut] at rest
      exact (s.close_takes pending.srt).trans rest

theorem State.uninitPublisher_takes (s : State) (pending : PendingPublisher) (live : pending.publisher.state ≠ .uninit) :
    s.Takes (s.uninitPublisher pending) pending.socket.toList := by
  have closed := pending.publisher.uninit_closed live
  have nothing : (s.released pending pending.publisher.uninit).Takes (s.uninitPublisher pending)
      (PendingPublisher.socket ⟨pending.srt,pending.publisher.uninit⟩).toList := by
    unfold PendingPublisher.socket
    rw [closed]
    exact State.Takes.refl _
  apply State.Takes.released _ nothing
  rw [closed]
  exact fun opened => absurd opened Bool.false_ne_true

theorem State.finishPlayerAccept_takes (s : State) (args : Args) (around : Surroundings) :
    s.Takes (s.finishPlayerAccept args around) [args.srt] := by
  unfold State.finishPlayerAccept
  split
  · exact s.close_takes args.srt
  · exact s.push_takes _

theorem State.finishPublisherAccept_takes (s : State) (pending : PendingPublisher) (around : Publication)
    (live : pending.publisher.state ≠ .uninit) : s.Takes (s.finishPublisherAccept pending around) pending.socket.toList := by
  unfold State.finishPublisherAccept
  split
  · exact s.uninitPublisher_takes pending live
  · split
    · exact s.uninitPublisher_takes pending live
    · exact s.push_takes _

theorem State.pollPublisher_takes (s : State) (pending : PendingPublisher) (now : Nat) (around : Publication)
    (live : pending.publisher.state = .inited) : s.Takes (s.pollPublisher pending now around) pending.socket.toList := by
  obtain ⟨shrinks,left⟩ := pending.publisher.checkHttpPassed_socket now live
  unfold State.pollPublisher
  dsimp only
  apply State.Takes.released shrinks
  split
  · exact State.finishPublisherAccept_takes _ _ around left
  · split
    · exact State.uninitPublisher_takes _ _ left
    · rename_i valid
      apply State.holdPublisher_takes
      cases state : (pending.publisher.checkHttpPassed now).2.state with
      | uninit => exact absurd state left
      | inited => rfl
      | invalid => exact absurd state valid

theorem accepted_socket (key sid peer url : Text) (port : Nat) :
    let role := (Role.accepted key sid peer port).setHttpUrl url
    role.srt = true ∧ role.state = .inited := by
  unfold Role.setHttpUrl
  split <;> exact ⟨rfl,rfl⟩

theorem onConnect_socket {role asked : Role} {srt now : Nat} {threw : Bool} {events : List PublisherAuth.Event}
    (connected : role.onConnect srt threw now = some (asked,events)) : asked.srt = role.srt ∧ asked.state = role.state := by
  unfold Role.onConnect at connected
  split at connected
  · cases connected
    exact ⟨rfl,rfl⟩
  · split at connected
    · cases connected
    · cases connected
      exact ⟨rfl,rfl⟩

theorem Listener.acceptPublisher_takes (l : Listener) (s : State) (srt : Nat) (appUplive stream sid : Text)
    (peer : Text × Nat) (env : Encounter) : s.Takes (l.acceptPublisher s srt appUplive stream sid peer env) [srt] := by
  unfold Listener.acceptPublisher
  dsimp only
  split
  · exact s.close_takes srt
  split
  · exact s.close_takes srt
  split
  · exact s.close_takes srt
  split
  · exact s.close_takes srt
  obtain ⟨opened,live⟩ := accepted_socket (strlcpy (keyApp appUplive stream) urlMaxLen) sid peer.1 l.httpUrlRole peer.2
  have whole : ∀ role : Role, role.srt = true → (PendingPublisher.socket ⟨srt,role⟩).toList = [srt] := by
    intro role held
    unfold PendingPublisher.socket
    rw [held]
    rfl
  split
  · rw [← whole _ opened]
    apply State.uninitPublisher_takes
    rw [live]
    decide
  · rename_i asked events connected
    obtain ⟨same,state⟩ := onConnect_socket connected
    rw [← whole asked (same.trans opened)]
    exact State.pollPublisher_takes _ _ _ _ (state.trans live)

theorem Listener.conclude_takes (l : Listener) (s : State) (srt : Nat) (peer : Text × Nat) (env : Encounter)
    {outcome : Outcome} (own : ∀ args, outcome = .finish args → args.srt = srt) :
    s.Takes (l.conclude s srt peer env outcome) [srt] := by
  cases outcome with
  | reject => exact s.close_takes srt
  | finish args =>
    rw [← own args rfl]
    exact s.finishPlayerAccept_takes args env.player
  | publisher appUplive stream sid => exact l.acceptPublisher_takes s srt appUplive stream sid peer env

theorem handler_own {held : Held} {resolved : Text} {args : Args} (finishes : held.handler resolved = .finish args) :
    args.srt = held.srt := by
  unfold Held.handler at finishes
  dsimp only at finishes
  split at finishes
  · cases finishes
  · split at finishes
    · cases finishes
    · split at finishes
      · cases finishes
      · cases finishes
        rfl

theorem drivePending_own {held : Held} {resolved : Text} {args : Args} (finishes : held.drivePending resolved = .finish args) :
    args.srt = held.srt := by
  unfold Held.drivePending at finishes
  split at finishes
  · cases finishes
  · cases finishes
    rfl

theorem Listener.validateAndAccept_takes (l : Listener) (s : State) (held : Held) (peer : Text × Nat) (env : Encounter) :
    s.Takes (l.validateAndAccept s held peer env) [held.srt] := by
  unfold Listener.validateAndAccept
  dsimp only
  split
  · exact s.close_takes held.srt
  -- the look-up may have dropped an expired entry
  apply (s.cache_takes (l.gate.server.validatePlayerKey s.cache held.playerKey env.limited env.now).1).trans
  split
  · split
    · exact State.close_takes _ held.srt
    · exact State.hold_takes _ _
  · exact State.close_takes _ held.srt
  · exact l.conclude_takes _ held.srt peer env fun args finishes => handler_own finishes

/-- Every way out of `handler` closes the socket, holds it or hands it over, and
does so once. -/
theorem Listener.handler_takes (l : Listener) (s : State) (srt : Nat) (env : Encounter) :
    s.Takes (l.handler s srt env) [srt] := by
  unfold Listener.handler
  split
  · exact s.close_takes srt
  split
  · exact s.close_takes srt
  split
  · exact s.close_takes srt
  split
  · exact s.close_takes srt
  split
  · exact s.close_takes srt
  split
  · exact s.close_takes srt
  dsimp only
  split
  · exact s.close_takes srt
  split
  · exact s.close_takes srt
  split
  · exact l.validateAndAccept_takes s _ _ env
  · apply l.conclude_takes s srt
    intro args finishes
    split at finishes
    · cases finishes
    · cases finishes
      rfl

theorem State.drivePlayer_takes (env : TickEnv) (s : State) (pending : PendingPlayer) :
    s.Takes (s.drivePlayer env pending) [pending.srt] := by
  unfold State.drivePlayer
  split
  · split
    · split
      · rename_i args finishes
        rw [← drivePending_own finishes]
        exact s.finishPlayerAccept_takes args _
      · exact s.close_takes pending.srt
    · exact s.close_takes pending.srt
  · split
    · exact s.close_takes pending.srt
    · exact s.hold_takes pending

theorem foldl_takes {α : Type} (turn : State → α → State) (sockets : α → List Nat) (list : List α)
    (takes : ∀ entry ∈ list, ∀ s, State.Takes s (turn s entry) (sockets entry)) (s : State) :
    s.Takes (list.foldl turn s) (list.flatMap sockets) := by
  induction list generalizing s with
  | nil => exact State.Takes.refl s
  | cons entry rest ih =>
    rw [List.foldl_cons,List.flatMap_cons]
    apply State.Takes.trans (takes entry (List.mem_cons_self ..) s)
    exact ih (fun later member => takes later (List.mem_cons_of_mem _ member)) _

theorem State.publishers_loop (s : State) (turn : State → PendingPublisher → State)
    (takes : ∀ pending ∈ s.pendingPublishers, ∀ met, State.Takes met (turn met pending) pending.socket.toList) :
    s.Takes (s.pendingPublishers.foldl turn {s with pendingPublishers := []}) [] := by
  have loop := foldl_takes turn (fun pending => pending.socket.toList) s.pendingPublishers takes {s with pendingPublishers := []}
  refine ⟨loop.created,loop.uninited,?_,fun _ => loop.ready fun _ member => absurd member List.not_mem_nil⟩
  intro srt
  rw [loop.stake,State.stake_eq,State.stake_eq,List.filterMap_eq_flatMap_toList _ s.pendingPublishers,List.filterMap_nil]
  dsimp only [List.count_nil]
  omega

theorem State.players_loop (s : State) (turn : State → PendingPlayer → State)
    (takes : ∀ pending ∈ s.pendingPlayers, ∀ met, State.Takes met (turn met pending) [pending.srt]) :
    s.Takes (s.pendingPlayers.foldl turn {s with pendingPlayers := []}) [] := by
  have loop := foldl_takes turn (fun pending => [pending.srt]) s.pendingPlayers takes {s with pendingPlayers := []}
  refine ⟨loop.created,loop.uninited,?_,loop.ready⟩
  intro srt
  rw [loop.stake,State.stake_eq,State.stake_eq,← List.map_eq_flatMap,List.map_nil]
  dsimp only [List.count_nil]
  omega

theorem State.onWorkerTick_takes (s : State) (env : TickEnv) (ready : s.Ready) : s.Takes (s.onWorkerTick env) [] := by
  unfold State.onWorkerTick
  split
  · exact State.Takes.refl s
  · have publishers : s.Takes (s.drivePendingPublisherConnections env) [] := by
      apply s.publishers_loop
      intro pending member met
      exact met.pollPublisher_takes pending env.now _ (ready pending member)
    apply publishers.trans
    apply State.players_loop
    intro pending _ met
    exact met.drivePlayer_takes env pending

end Takes

/-- Each socket accepted so far has one place, be it an owner or the list of closed ones. -/
structure State.Sound (s : State) : Prop where
  stake : ∀ srt, s.stake srt = if srt < s.created then 1 else 0
  ready : s.Ready

theorem State.Sound.takes {s next : State} (sound : s.Sound) (takes : s.Takes next []) : next.Sound := by
  refine ⟨?_,takes.ready sound.ready⟩
  intro srt
  rw [takes.stake,takes.created,List.count_nil,Nat.add_zero]
  exact sound.stake srt

theorem State.start_sound : State.start.Sound where
  stake srt := by rw [State.stake_eq]; rfl
  ready := fun _ member => absurd member List.not_mem_nil

theorem State.Sound.uninit {s : State} (sound : s.Sound) : s.uninit.Sound := by
  have publishers : s.Takes (s.pendingPublishers.foldl State.uninitPublisher {s with pendingPublishers := []}) [] := by
    apply s.publishers_loop
    intro pending member met
    apply met.uninitPublisher_takes pending
    rw [sound.ready pending member]
    decide
  have closed := sound.takes publishers
  exact ⟨closed.stake,closed.ready⟩

theorem State.Sound.accept {s : State} (sound : s.Sound) (idle : s.running = none) :
    State.Sound {s with created := s.created + 1,running := some s.created} := by
  refine ⟨?_,sound.ready⟩
  intro srt
  have before := sound.stake srt
  rw [State.stake_eq,idle] at before
  rw [State.stake_eq]
  dsimp only [Option.toList] at before ⊢
  rw [List.count_nil] at before
  rw [List.count_singleton,beq_eq_decide]
  by_cases fresh : s.created = srt
  · subst fresh
    rw [if_neg (Nat.lt_irrefl _)] at before
    rw [if_pos (Nat.lt_succ_self _),decide_eq_true rfl,if_pos rfl]
    omega
  · have same : srt < s.created + 1 ↔ srt < s.created := by omega
    rw [decide_eq_false fresh,if_neg Bool.false_ne_true]
    simp only [same]
    omega

theorem State.Sound.handler {s : State} (sound : s.Sound) (l : Listener) {srt : Nat} (running : s.running = some srt)
    (env : Encounter) : (l.handler {s with running := none} srt env).Sound := by
  have takes := l.handler_takes {s with running := none} srt env
  refine ⟨?_,takes.ready sound.ready⟩
  intro other
  have before := sound.stake other
  rw [State.stake_eq,running] at before
  rw [takes.stake,takes.created,State.stake_eq]
  dsimp only [Option.toList] at before ⊢
  rw [List.count_nil]
  omega

theorem PendingPublisher.complete_kept (srt : Nat) (response : AsyncHttpResponse) (pending : PendingPublisher) :
    (pending.complete srt response).socket = pending.socket ∧
      (pending.complete srt response).publisher.state = pending.publisher.state := by
  unfold PendingPublisher.complete
  split
  · split <;> exact ⟨rfl,rfl⟩
  · exact ⟨rfl,rfl⟩

theorem State.complete_takes (s : State) (srt : Nat) (response : AsyncHttpResponse) :
    s.Takes {s with pendingPublishers := s.pendingPublishers.map (PendingPublisher.complete srt response)} [] where
  created := rfl
  uninited := rfl
  stake other := by
    have sockets : (fun pending => (PendingPublisher.complete srt response pending).socket) = PendingPublisher.socket := by
      ext1 pending
      exact (pending.complete_kept srt response).1
    rw [State.stake_eq,State.stake_eq,List.filterMap_map]
    change _ + (s.pendingPublishers.filterMap fun pending => (PendingPublisher.complete srt response pending).socket).count other +
      _ + _ = _
    rw [sockets]
    rfl
  ready held := by
    intro pending member
    obtain ⟨before,found,rfl⟩ := List.mem_map.mp member
    rw [(before.complete_kept srt response).2]
    exact held before found

theorem count_released (roles : List HandedRole) {role : Nat} {handed : HandedRole} (found : roles[role]? = some handed)
    (srt : Nat) : (roles.filterMap (·.srt)).count srt =
      ((roles.set role {handed with srt := none}).filterMap (·.srt)).count srt + handed.srt.toList.count srt := by
  induction roles generalizing role with
  | nil => cases found
  | cons first rest ih =>
    cases role with
    | zero =>
      cases found
      rw [← List.singleton_append,List.filterMap_append,filterMap_one,List.count_append,Nat.add_comm]
      rfl
    | succ role =>
      rw [List.set_cons_succ,← List.singleton_append,List.filterMap_append,List.count_append,ih found,← Nat.add_assoc]
      rw [← List.count_append,← List.filterMap_append,List.singleton_append]

theorem State.invalidSrt_takes (s : State) {role : Nat} {handed : HandedRole} (found : s.roles[role]? = some handed) :
    s.Takes {s with roles := s.roles.set role {handed with srt := none},closed := s.closed ++ handed.srt.toList} [] := by
  refine ⟨rfl,rfl,?_,id⟩
  intro srt
  rw [State.stake_eq,State.stake_eq,count_released s.roles found,List.count_append]
  dsimp only [List.count_nil]
  omega

theorem Listener.keeps_sound (l : Listener) : l.machine.Keeps (fun _ _ => True) State.Sound := by
  intro s label next sound _ stepped
  cases label with
  | accept =>
    obtain ⟨⟨_,idle⟩,same⟩ := Option.ite_none_right_eq_some.mp stepped
    cases same
    exact sound.accept idle
  | handler env =>
    obtain ⟨srt,running,rfl⟩ := Option.map_eq_some_iff.mp stepped
    exact sound.handler l running env
  | cache key entry =>
    cases stepped
    exact sound.takes (s.cache_takes _)
  | complete srt response =>
    cases stepped
    exact sound.takes (s.complete_takes srt response)
  | tick env =>
    obtain ⟨_,same⟩ := Option.ite_none_right_eq_some.mp stepped
    cases same
    exact sound.takes (s.onWorkerTick_takes env sound.ready)
  | invalidSrt role =>
    obtain ⟨handed,found,rfl⟩ := Option.map_eq_some_iff.mp stepped
    exact sound.takes (s.invalidSrt_takes found)
  | invalidate =>
    cases stepped
    exact ⟨sound.stake,sound.ready⟩
  | uninit =>
    cases stepped
    exact sound.uninit

theorem State.Sound.linear {s : State} (sound : s.Sound) : s.Linear := by
  intro srt accepted
  have one := sound.stake srt
  rw [if_pos accepted,State.stake] at one
  refine ⟨by omega,?_,?_⟩
  · intro still
    rw [List.count_eq_zero.mpr still] at one
    exact List.length_eq_one_iff.mp one
  · intro gone
    have counted := List.count_pos_iff.mpr gone
    exact List.eq_nil_of_length_eq_zero (by omega)

def State.TornDown (s : State) : Prop :=
  s.uninited = true → s.listening = false ∧ s.running = none ∧ s.pendingPlayers = [] ∧ s.pendingPublishers = []

/-- A teardown falls in no `handler` call and leaves no player behind. -/
def UninitAlone (s : State) (label : Label) : Prop :=
  match label with
  | .uninit => s.running = none ∧ s.pendingPlayers = []
  | _ => True

instance (s : State) : (label : Label) → Decidable (UninitAlone s label)
  | .uninit => inferInstanceAs (Decidable (_ ∧ _))
  | .accept | .handler _ | .cache _ _ | .complete _ _ | .tick _ | .invalidSrt _ | .invalidate => .isTrue trivial

theorem State.uninit_left (s : State) :
    s.uninit.running = s.running ∧ s.uninit.pendingPlayers = s.pendingPlayers ∧ s.uninit.pendingPublishers = [] := by
  have turns : ∀ list : List PendingPublisher, ∀ met : State,
      (list.foldl State.uninitPublisher met).running = met.running ∧
        (list.foldl State.uninitPublisher met).pendingPlayers = met.pendingPlayers ∧
        (list.foldl State.uninitPublisher met).pendingPublishers = met.pendingPublishers := by
    intro list
    induction list with
    | nil => exact fun met => ⟨rfl,rfl,rfl⟩
    | cons pending rest ih =>
      intro met
      obtain ⟨running,players,publishers⟩ := ih (met.uninitPublisher pending)
      have one : (met.uninitPublisher pending).running = met.running ∧
          (met.uninitPublisher pending).pendingPlayers = met.pendingPlayers ∧
          (met.uninitPublisher pending).pendingPublishers = met.pendingPublishers := by
        unfold State.uninitPublisher State.released
        split <;> exact ⟨rfl,rfl,rfl⟩
      exact ⟨running.trans one.1,players.trans one.2.1,publishers.trans one.2.2⟩
  exact turns s.pendingPublishers {s with pendingPublishers := []}

theorem Listener.keeps_tornDown (l : Listener) : l.machine.Keeps UninitAlone fun s => s.Sound ∧ s.TornDown := by
  intro s label next ⟨sound,torn⟩ alone stepped
  refine ⟨l.keeps_sound s label next sound trivial stepped,?_⟩
  cases label with
  | accept =>
    obtain ⟨⟨listening,_⟩,same⟩ := Option.ite_none_right_eq_some.mp stepped
    cases same
    intro uninited
    have deaf := (torn uninited).1
    rw [listening] at deaf
    cases deaf
  | handler env =>
    obtain ⟨srt,running,rfl⟩ := Option.map_eq_some_iff.mp stepped
    intro uninited
    rw [(l.handler_takes {s with running := none} srt env).uninited] at uninited
    have idle := (torn uninited).2.1
    rw [running] at idle
    cases idle
  | cache key entry =>
    cases stepped
    exact torn
  | complete srt response =>
    cases stepped
    intro uninited
    obtain ⟨deaf,idle,players,publishers⟩ := torn uninited
    refine ⟨deaf,idle,players,?_⟩
    dsimp only
    rw [publishers]
    rfl
  | tick env =>
    obtain ⟨_,same⟩ := Option.ite_none_right_eq_some.mp stepped
    cases same
    intro uninited
    have before : s.uninited = true := by
      rw [← (s.onWorkerTick_takes env sound.ready).uninited]
      exact uninited
    have bails : s.onWorkerTick env = s := by
      unfold State.onWorkerTick
      rw [(torn before).1]
      rfl
    rw [bails]
    exact torn before
  | invalidSrt role =>
    obtain ⟨handed,found,rfl⟩ := Option.map_eq_some_iff.mp stepped
    exact torn
  | invalidate =>
    cases stepped
    intro uninited
    exact ⟨rfl,(torn uninited).2⟩
  | uninit =>
    cases stepped
    intro _
    obtain ⟨running,players,publishers⟩ := s.uninit_left
    exact ⟨rfl,running.trans alone.1,players.trans alone.2,publishers⟩

theorem State.TornDown.settled {s : State} (torn : s.TornDown) : s.Settled := by
  intro uninited srt owner owns
  obtain ⟨_,_,players,publishers⟩ := torn uninited
  unfold State.owners at owns
  rw [players,publishers] at owns
  rcases List.mem_append.mp owns with early | late
  · rw [List.filter_nil,List.filter_nil,List.map_nil,List.map_nil,List.append_nil,List.append_nil] at early
    obtain ⟨_,_,rfl⟩ := List.mem_map.mp early
    rfl
  · obtain ⟨_,_,rfl⟩ := List.mem_map.mp late
    rfl

/-- In every run each accepted socket has one owner until it is closed, once; and
where each teardown finds no player pending and no `handler` call under way, no
pending entry holds a socket after it. -/
theorem accepted_sockets_owned (l : Listener) (labels : List Label) (s : State)
    (ran : l.machine.run .start labels = some s) :
    s.Linear ∧ (l.machine.Admits UninitAlone .start labels → s.Settled) := by
  have sound := l.keeps_sound.run_all State.start_sound ran
  refine ⟨sound.linear,?_⟩
  intro alone
  have torn : State.start.TornDown := fun uninited => absurd uninited Bool.false_ne_true
  exact (l.keeps_tornDown.run ⟨State.start_sound,torn⟩ alone ran).2.settled

def playerListener : Listener where
  gate := ⟨⟨[ascii "play"],ascii "pub",[(ascii "live",ascii "live")],ascii "http://auth",2000,8,64,false⟩,false,false⟩
  latencyMin := 0
  latencyMax := 0
  httpUrlRole := []

def welcome (streamid : Text) : Encounter where
  peer := some (ascii "192.0.2.7",40000)
  handoffBacklog := 0
  latency := some 200
  streamid := some streamid
  sessionId := ascii "s1"
  curTime := ascii "2026-01-01 00:00:00"
  strdup := true
  now := 1000
  limited := false
  published := fun _ => true
  player := ⟨fun _ => true,false,fun _ => false,fun _ => true,true,fun _ => true,false⟩
  publisher := ⟨fun _ => true,true,false,fun _ => false,true⟩

/-- A player is held for its key, and the key's answer comes before the tick. -/
def admittedPlayer : List Label :=
  [.accept,.handler (welcome (ascii "play/live/key-1234")),
    .cache (ascii "key-1234") (some ⟨ascii "pub/live/cam",true,9000,none⟩),
    .tick ⟨1500,fun _ => (welcome []).player,fun _ => (welcome []).publisher⟩,.uninit]

theorem accepted_sockets_owned_admitted :
    ∃ s, playerListener.machine.run .start admittedPlayer = some s ∧ s.uninited = true ∧ s.Linear ∧ s.Settled ∧
      s.owners 0 = [.role ⟨ascii "pub/live/cam",some 0⟩] := by
  have reached : (playerListener.machine.run .start admittedPlayer).map (fun s => (s.uninited,s.owners 0)) =
      some (true,[.role ⟨ascii "pub/live/cam",some 0⟩]) := by
    decide +kernel
  obtain ⟨s,ran,same⟩ := Option.map_eq_some_iff.mp reached
  obtain ⟨uninited,owners⟩ := Prod.mk.inj same
  obtain ⟨linear,settled⟩ := accepted_sockets_owned playerListener admittedPlayer s ran
  exact ⟨s,ran,uninited,linear,settled (by decide +kernel),owners⟩

/-- A listener torn down while it holds a player for its key leaves the socket open
in the pending entry. -/
theorem torn_down_listener_strands_player :
    ¬ ∀ (l : Listener) (labels : List Label) (s : State), l.machine.run .start labels = some s → s.Linear ∧ s.Settled := by
  intro claim
  have reached : (playerListener.machine.run .start
      [.accept,.handler (welcome (ascii "play/live/key-1234")),.uninit]).map (fun s => (s.uninited,(s.owners 0).map (·.isPending))) =
      some (true,[true]) := by
    decide +kernel
  obtain ⟨s,ran,same⟩ := Option.map_eq_some_iff.mp reached
  obtain ⟨uninited,held⟩ := Prod.mk.inj same
  obtain ⟨owner,owners,pending⟩ := List.map_eq_singleton_iff.mp held
  have free := (claim _ _ s ran).2 uninited 0 owner (by rw [owners]; exact List.mem_singleton_self _)
  rw [pending] at free
  cases free

end SrtLiveServer.ListenerSockets
