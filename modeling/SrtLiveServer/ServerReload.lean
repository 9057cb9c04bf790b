import SrtLiveServer.WorkerRuns

/-! The main loop of the server and its `CSLSManager`s. A SIGHUP retires the one in service
and starts another; each round sweeps the retired ones, whose workers end when their role
maps are empty. Every manager is a world of workers of its own. -/
namespace SrtLiveServer.ServerReload
open Transition WorkerGroup

/-- `group` is `m_workers`. Where `worker_threads` is 0 the one group in it has no thread,
and the main loop drives the manager in service itself. -/
structure Manager where
  number : Nat
  world : World
  group : List Nat
  single : Bool

/-- The main loop in `check_invalid` of the `k`th retired manager: `it` into the vector, and
the steps from there to `it_end`, which was taken before the first. -/
inductive Sweep where
  | rest
  | checking (k it todo : Nat)
deriving DecidableEq

/-- `strayed` is set by an iterator behind the vector; nothing is known from there on. -/
structure Server where
  current : Manager
  retired : List Manager
  deleted : List Manager
  sweep : Sweep
  strayed : Bool

inductive Label where
  /-- A step in the manager in service, or in the `k`th retired one. -/
  | serve (label : WorkerGroup.Label)
  | drain (k : Nat) (label : WorkerGroup.Label)
  | sweep
  | check (threw : Bool)
  /-- `servers` has the listeners, with what `post_async` does in their `uninit`. -/
  | reload (servers : List (Nat × Bool)) (threads workerConnections : Nat)

/-- What workers, listeners, webhooks and the control plane do; the rest is left to the main loop. -/
def free : WorkerGroup.Label → Bool
  | .handoff _ _ | .kick _ | .complete _ _ | .turn _ _ => true
  | _ => false

def isTurn : WorkerGroup.Label → Bool
  | .turn _ _ => true
  | _ => false

def Manager.step (m : Manager) (label : WorkerGroup.Label) : Option Manager :=
  (m.world.step label).map fun world => {m with world := world}

/-- `CSLSManager::start`. -/
def Manager.start (number threads workerConnections : Nat) : Manager where
  number := number
  world := World.start (if threads = 0 then 1 else threads) workerConnections
  group := List.range (if threads = 0 then 1 else threads)
  single := threads = 0

/-- `CSLSManager::reload`. -/
def Manager.reload (m : Manager) (servers : List (Nat × Bool)) : Option Manager :=
  (machine.run m.world (servers.map (fun server => .uninitListener server.1 server.2) ++ m.group.map .reload)).map
    fun world => {m with world := world}

/-- The sweep goes on to the `k`th manager, if there is one. -/
def Server.sweepAt (s : Server) (k : Nat) : Sweep :=
  match s.retired[k]? with
  | none => .rest
  | some m => .checking k 0 m.group.length

/-- The end of `check_invalid`: a manager with no workers left is stopped and deleted. -/
def Server.leave (s : Server) (k : Nat) (m : Manager) (threw : Bool) : Option Server :=
  if m.group = [] then
    (m.step (.erase threw)).map fun stopped =>
      let left := {s with retired := s.retired.eraseIdx k,deleted := s.deleted ++ [stopped]}
      {left with sweep := left.sweepAt k}
  else some {s with sweep := s.sweepAt (k + 1)}

/-- One turn of its loop: a worker that has exited is joined and erased. -/
def Server.visit (s : Server) (k it todo : Nat) (m : Manager) (threw : Bool) : Option Server :=
  match m.group[it]? with
  | none => some {s with strayed := true}
  | some w =>
    if (m.world.workers w).exit then
      (m.step (.join w threw)).map fun joined =>
        {s with retired := s.retired.set k {joined with group := m.group.eraseIdx it},sweep := .checking k (it + 1) todo}
    else some {s with sweep := .checking k (it + 1) todo}

def Server.check (s : Server) (threw : Bool) : Option Server :=
  match s.sweep with
  | .rest => none
  | .checking k it todo =>
    match s.retired[k]? with
    | none => none
    | some m =>
      match todo with
      | 0 => s.leave k m threw
      | todo + 1 => s.visit k it todo m threw

def Server.step (s : Server) (label : Label) : Option Server :=
  if s.strayed then none
  else match label with
  | .serve label => if free label then (s.current.step label).map fun m => {s with current := m} else none
  | .drain k label =>
    match s.retired[k]? with
    | none => none
    | some m =>
      if free label ∧ ¬ (m.single ∧ isTurn label) then (m.step label).map fun m => {s with retired := s.retired.set k m} else none
  | .sweep => if s.sweep = .rest then some {s with sweep := s.sweepAt 0} else none
  | .check threw => s.check threw
  | .reload servers threads workerConnections =>
    if s.sweep = .rest then
      (s.current.reload servers).map fun m => {s with
        current := .start (s.current.number + 1) threads workerConnections
        retired := s.retired ++ [m]}
    else none

def server : Machine Server Label := ⟨Server.step⟩

def Server.start (threads workerConnections : Nat) : Server := ⟨.start 0 threads workerConnections,[],[],.rest,false⟩

end SrtLiveServer.ServerReload
