import SrtLiveServer.CloseNotification
import SrtLiveServer.Custody
import SrtLiveServer.Transition

/-! The workers of a `CSLSManager`. Each `CSLSGroup` has an epoll container and a role map of
its own, and adopts roles from the one `CSLSRoleList` they share; listeners and relay
managers append to that list from other threads. A step is what one thread does between
two points where another may come in. -/
namespace SrtLiveServer.WorkerGroup
open PublisherAuth (RoleState AsyncHttpResponse)
open CloseNotification (Call Op)
open Transition

def handoffAdmissionTtlMs : Int := 5000

/-- A role that was handed over, and the members by which the workers drive it. -/
structure Role extends CloseNotification.Role where
  /-- `m_sc.fd`, the number of the socket it has or had. -/
  fd : Nat
  /-- `m_sc.eid`; 0 for none. -/
  eid : Nat
  /-- The role name begins with `listener`. -/
  listener : Bool
  isWrite : Bool
  epollOutArmed : Bool
  statStartTime : Int
  /-- Only a role that is in use has a socket. -/
  inited : srt ≠ none → state = .inited
  unarmed : eid = 0 → epollOutArmed = false

/-- One entry of an epoll container; errors are always watched. -/
structure Subscription where
  eid : Nat
  fd : Nat
  modeIn : Bool
  modeOut : Bool
deriving DecidableEq

/-- What libsrt and the roles know of sockets: those handed over, in their order, and the
numbers given to `srt_close`. -/
structure Net where
  roles : Nat → Option Role
  opened : List Nat
  closed : List Nat
  subscribed : List Subscription

/-- What the `handler` of a role does to it, whether it succeeds, whether bytes stay
staged, and whether `srt_epoll_update_usock` would accept a change. -/
structure Handling where
  calls : List Call
  ok : Bool
  staged : Bool
  updates : Bool

/-- Where a worker stands; `idle` has the housekeeping ahead of it. -/
inductive Phase where
  | loop
  | reading (socks : List Nat)
  | egress (todo : List (Nat × Nat))
  | idle
  | checkInvalid (todo : List (Nat × Nat))
  | reap
  | reaping (stale : List Nat)
  | checkNew
  | adopting (role : Nat)
  | ended
deriving DecidableEq

/-- `roleMap` pairs socket numbers with roles, in ascending order. -/
structure Worker where
  roleMap : List (Nat × Nat)
  waitHttp : List Nat
  reload : Bool
  exit : Bool
  phase : Phase

/-- `stray` has the sockets that were reported and that no role map had. -/
structure World where
  net : Net
  workerConnections : Nat
  threads : Nat
  backlog : List Nat
  workers : Nat → Worker
  stray : List Nat

/-- What a worker is told while it takes a step. -/
structure Answers where
  /-- The sockets that `srt_epoll_wait` reports. -/
  readable : List Nat
  tick : List Call
  handling : Handling
  waiting : Nat → Handling
  /-- `IDLE_CHECK_INTERVAL` has gone by. -/
  due : Bool
  idle : Bool
  broken : Bool
  now : Int
  /-- `srt_epoll_add_usock` succeeds. -/
  added : Bool
  /-- `post_async` throws. -/
  threw : Bool

inductive Label where
  | handoff (id : Nat) (role : Role)
  | kick (id : Nat)
  | complete (id : Nat) (response : AsyncHttpResponse)
  /-- `server->uninit()` on the main thread. -/
  | uninitListener (id : Nat) (threw : Bool)
  | reload (w : Nat)
  | stop (w : Nat)
  | turn (w : Nat) (answers : Answers)
  /-- `CSLSGroup::stop` after the thread was joined. -/
  | join (w : Nat) (threw : Bool)
  /-- `CSLSRoleList::erase`, once the workers have stopped. -/
  | erase (threw : Bool)

section Roles

def eidOf (w : Nat) : Nat := w + 1

def Role.call (role : Role) (call : Call) : Role :=
  {role with toRole := (role.toRole.step call).1,inited := CloseNotification.Role.step_inited role.inited call}

def Role.subscription (role : Role) : Subscription := ⟨role.eid,role.fd,!role.isWrite,role.epollOutArmed⟩

def Role.getFd (role : Role) : Nat := if role.srt.isSome then role.fd else 0

def Net.set (net : Net) (id : Nat) (role : Role) : Net := {net with roles := Function.update net.roles id (some role)}

/-- `remove_from_epoll`, then `srt_close`. -/
def Net.drop (net : Net) (role : Role) : Net :=
  {net with
    subscribed := if role.eid = 0 then net.subscribed
      else net.subscribed.filter fun sub => !(sub.eid = role.eid && sub.fd = role.fd)
    closed := net.closed ++ [role.fd]}

/-- A call on a role; `invalid_srt` is the one place where a role loses its socket. -/
def Net.call (net : Net) (id : Nat) (call : Call) : Net :=
  match net.roles id with
  | none => net
  | some role =>
    if role.srt.isSome && (role.call call).srt.isNone then (net.drop role).set id (role.call call)
    else net.set id (role.call call)

def Net.calls (net : Net) (id : Nat) (calls : List Call) : Net := calls.foldl (fun net call => net.call id call) net

def Net.markInvalid (net : Net) (id : Nat) (threw : Bool) : Net := net.call id ⟨.markInvalid,threw⟩

def Net.uninit (net : Net) (threw : Bool) (id : Nat) : Net := net.call id ⟨.uninit,threw⟩

def Net.uninitAll (net : Net) (threw : Bool) (ids : List Nat) : Net := ids.foldl (fun net id => net.uninit threw id) net

/-- `add_to_epoll`: the container is noted before it may refuse. -/
def Net.addToEpoll (net : Net) (id eid : Nat) (added : Bool) : Net :=
  match net.roles id with
  | none => net
  | some role =>
    if nonzero : eid = 0 then net
    else
      let noted : Role := {role with eid := eid,unarmed := fun zero => absurd zero nonzero}
      if added then {net.set id noted with subscribed := net.subscribed ++ [⟨eid,role.fd,!role.isWrite,false⟩]}
      else net.set id noted

/-- `update_egress_arming`: OUT is watched while bytes are staged. -/
def Net.updateEgressArming (net : Net) (id : Nat) (handling : Handling) : Net :=
  match net.roles id with
  | none => net
  | some role =>
    if !role.isWrite || role.srt.isNone || handling.staged = role.epollOutArmed || !handling.updates then net
    else if registered : role.eid = 0 then net
    else
      let armed : Role := {role with epollOutArmed := handling.staged,unarmed := fun zero => absurd zero registered}
      {net.set id armed with
        subscribed := net.subscribed.map fun sub =>
          if sub.eid = role.eid && sub.fd = role.fd then {sub with modeOut := handling.staged} else sub}

/-- The read loop: a failed `handler` marks the role. -/
def Net.handle (net : Net) (id : Nat) (handling : Handling) (threw : Bool) : Net :=
  let handled := net.calls id handling.calls
  if handling.ok then handled else handled.markInvalid id threw

/-- The egress pass over one role. -/
def Net.egress (net : Net) (id : Nat) (answers : Answers) : Net :=
  let ticked := net.calls id answers.tick
  match ticked.roles id with
  | none => ticked
  | some role =>
    if !role.isWrite || role.state = .invalid then ticked
    else if answers.handling.ok then
      (ticked.calls id answers.handling.calls).updateEgressArming id answers.handling
    else (ticked.calls id answers.handling.calls).markInvalid id answers.threw

def Net.checkHttpClient (net : Net) (id : Nat) : Bool := (net.roles id).any fun role => role.httpFuture.isSome

end Roles

section Workers

def insertRole (fd id : Nat) : List (Nat × Nat) → List (Nat × Nat)
  | [] => [(fd,id)]
  | (key,role)::rest =>
    if fd < key then (fd,id)::(key,role)::rest
    else if fd = key then (fd,id)::rest
    else (key,role)::insertRole fd id rest

def eraseRole (fd : Nat) (roleMap : List (Nat × Nat)) : List (Nat × Nat) := roleMap.filter fun entry => entry.1 ≠ fd

def World.setWorker (s : World) (w : Nat) (worker : Worker) : World := {s with workers := Function.update s.workers w worker}

def Worker.goto (worker : Worker) (phase : Phase) : Worker := {worker with phase := phase}

/-- `check_wait_http_role`. -/
def checkWaitHttp (answers : Answers) : Net → List Nat → Net × List Nat
  | net,[] => (net,[])
  | net,id::rest =>
    if net.checkHttpClient id then
      let (after,kept) := checkWaitHttp answers (net.calls id (answers.waiting id).calls) rest
      (after,id::kept)
    else checkWaitHttp answers (net.uninit answers.threw id) rest

/-- `check_invalid_sock` for one entry of the role map. -/
def World.checkInvalid (s : World) (w fd id : Nat) (rest : List (Nat × Nat)) (answers : Answers) : World :=
  let worker := (s.workers w).goto (.checkInvalid rest)
  let seen := s.net.call id ⟨.getState answers.idle answers.broken,answers.threw⟩
  match seen.roles id with
  | none => {s with net := seen}.setWorker w {worker with roleMap := eraseRole fd worker.roleMap}
  | some role =>
    if role.state = .inited then {s with net := seen}.setWorker w worker
    else
      let after := seen.uninit answers.threw id
      {s with net := after}.setWorker w
        {worker with
          roleMap := eraseRole fd worker.roleMap
          waitHttp := if after.checkHttpClient id then worker.waitHttp ++ [id] else worker.waitHttp}

/-- What `reap_unadopted` takes off the list. -/
def Net.stale (net : Net) (now : Int) (id : Nat) : Bool :=
  (net.roles id).any fun role => !role.listener && handoffAdmissionTtlMs < now - role.statStartTime

/-- `check_new_role` for the role it popped. -/
def World.adopt (s : World) (w id : Nat) (answers : Answers) : World :=
  let worker := (s.workers w).goto .loop
  match s.net.roles id with
  | none => s.setWorker w worker
  | some role =>
    if role.getFd = 0 then {s with net := s.net.uninit answers.threw id}.setWorker w worker
    else
      let tried := s.net.addToEpoll id (eidOf w) answers.added
      if answers.added then
        {s with net := tried}.setWorker w {worker with roleMap := insertRole role.getFd id worker.roleMap}
      else {s with net := tried.uninit answers.threw id}.setWorker w worker

/-- The next thing a worker does in `work` and `handler`. -/
def World.turn (s : World) (w : Nat) (answers : Answers) : Option World :=
  let worker := s.workers w
  match worker.phase with
  | .ended => none
  | .loop =>
    if worker.exit then
      some ({s with net := s.net.uninitAll answers.threw (worker.roleMap.map Prod.snd)}.setWorker w
        {worker with roleMap := [],phase := .ended})
    else if worker.reload && worker.roleMap.isEmpty then some (s.setWorker w {worker with exit := true})
    -- a container reports nothing but its own subscriptions
    else if ∀ fd ∈ answers.readable, ∃ sub ∈ s.net.subscribed, sub.eid = eidOf w ∧ sub.fd = fd then
      some (s.setWorker w (worker.goto (.reading answers.readable)))
    else none
  | .reading [] => some (s.setWorker w (worker.goto (.egress worker.roleMap)))
  | .reading (fd::rest) =>
    match worker.roleMap.lookup fd with
    | none => some ({s with stray := s.stray ++ [fd]}.setWorker w (worker.goto (.reading rest)))
    | some id =>
      some ({s with net := s.net.handle id answers.handling answers.threw}.setWorker w (worker.goto (.reading rest)))
  | .egress [] => some (s.setWorker w (worker.goto (if answers.due then .idle else .loop)))
  | .egress ((_,id)::rest) => some ({s with net := s.net.egress id answers}.setWorker w (worker.goto (.egress rest)))
  | .idle =>
    let (net,kept) := checkWaitHttp answers s.net worker.waitHttp
    some ({s with net := net}.setWorker w {worker with waitHttp := kept,phase := .checkInvalid worker.roleMap})
  | .checkInvalid [] => some (s.setWorker w (worker.goto .reap))
  | .checkInvalid ((fd,id)::rest) => some (s.checkInvalid w fd id rest answers)
  | .reap =>
    some ({s with backlog := s.backlog.filter fun id => !s.net.stale answers.now id}.setWorker w
      (worker.goto (.reaping (s.backlog.filter fun id => s.net.stale answers.now id))))
  | .reaping [] => some (s.setWorker w (worker.goto .checkNew))
  | .reaping (id::rest) =>
    some ({s with net := s.net.uninit answers.threw id}.setWorker w (worker.goto (.reaping rest)))
  | .checkNew =>
    if s.workerConnections ≤ worker.roleMap.length then some (s.setWorker w (worker.goto .loop))
    else match s.backlog with
      | [] => some (s.setWorker w (worker.goto .loop))
      | id::rest => some ({s with backlog := rest}.setWorker w (worker.goto (.adopting id)))
  | .adopting id => some (s.adopt w id answers)

/-- A role comes with a socket number of its own that libsrt has not given out before. -/
def World.handoff (s : World) (id : Nat) (role : Role) : World :=
  {s with
    net := {s.net.set id role with opened := if role.srt.isSome then s.net.opened ++ [role.fd] else s.net.opened}
    backlog := s.backlog ++ [id]}

def World.step (s : World) : Label → Option World
  | .handoff id role =>
    if (s.net.roles id).isNone ∧ role.eid = 0 ∧ (role.srt.isSome → role.fd ≠ 0 ∧ role.fd ∉ s.net.opened) then
      some (s.handoff id role)
    else none
  | .kick id => some {s with net := s.net.call id ⟨.requestKick,false⟩}
  | .complete id response => some {s with net := s.net.call id ⟨.complete response,false⟩}
  | .uninitListener id threw =>
    if (s.net.roles id).any Role.listener then some {s with net := s.net.uninit threw id} else none
  | .reload w => some (s.setWorker w {s.workers w with reload := true})
  | .stop w => some (s.setWorker w {s.workers w with exit := true})
  | .turn w answers => if w < s.threads then s.turn w answers else none
  | .join w threw =>
    if (s.workers w).phase = .ended then
      some ({s with net := s.net.uninitAll threw (s.workers w).waitHttp}.setWorker w {s.workers w with waitHttp := []})
    else none
  | .erase threw =>
    if ∀ w < s.threads, (s.workers w).phase = .ended then
      some {s with net := s.net.uninitAll threw s.backlog,backlog := []}
    else none

def machine : Machine World Label := ⟨World.step⟩

def Worker.start : Worker := ⟨[],[],false,false,.loop⟩

/-- `CSLSManager::start`, with its workers and their `worker_connections`. -/
def World.start (threads workerConnections : Nat) : World where
  net := ⟨fun _ => none,[],[],[]⟩
  workerConnections := workerConnections
  threads := threads
  backlog := []
  workers := fun _ => .start
  stray := []

end Workers

end SrtLiveServer.WorkerGroup
