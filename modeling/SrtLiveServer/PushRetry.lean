import SrtLiveServer.PusherManager
import SrtLiveServer.Transition
import Mathlib.Logic.Function.Basic

/-! One `CSLSPusherManager` and the retry lists of the worker groups. A leg is
recorded in the manager, and a worker's list is what brings the manager's
`reconnect` about; both sides of each worker's two-part operations are steps. A worker
that is reloaded or stopped ends, and its list ends with it. -/
namespace SrtLiveServer.PushRetry
open Bytes PushUrl PusherManager Transition

inductive Phase where
  | idle
  /-- `reconnect` returned `SLS_OK`; the list entry is erased next. -/
  | dropping
  /-- `check_invalid_sock` has queued the manager; the child's `uninit` is next. -/
  | tearing (url : Text)
  /-- Out of the loop of `CSLSEpollThread::work`. -/
  | ended
deriving DecidableEq

/-- `queued`: the manager is in this worker's `m_list_reconnect_relay_manager`. -/
structure Worker where
  queued : Bool
  phase : Phase
  reload : Bool
  /-- The manager's children in `m_map_role`. -/
  roles : List Text
deriving DecidableEq

structure State where
  owned : Bool
  reconnect : ReconnectMap
  /-- Children that no worker has adopted. -/
  children : List Text
  workers : Nat → Worker

def State.start : State := ⟨true,[],[],fun _ => ⟨false,.idle,false,[]⟩⟩

inductive Label where
  | connectLeg (call : Nat × Text × Option SockAddr) (connected : Bool) (now : Int)
  | adopt (worker : Nat) (url : Text)
  /-- A child's `uninit` from `reap_unadopted`, `check_new_role` or `erase`. -/
  | uninitUnqueued (url : Text) (now : Int)
  | checkInvalidSock (worker : Nat) (url : Text)
  | uninitChild (worker : Nat) (now : Int)
  | reconnect (worker : Nat) (cur : Int) (noPublisher : Bool) (connect : Text → Bool)
  | eraseEntry (worker : Nat)
  | reload
  /-- `handler` of a reloaded worker that has no roles, or `stop`; roles of others in its
  map only put it off. -/
  | leaveLoop (worker : Nat) (stopped : Bool)
  /-- A child's `uninit` from `clear`, behind the loop. -/
  | clear (worker : Nat) (url : Text) (now : Int)
  /-- `check_invalid` or `stop` of the `CSLSManager` deletes the worker, its list with it. -/
  | deleteWorker (worker : Nat)
  | release

structure Manager where
  info : RelayInfo
  streamName : Text

def Manager.calls (m : Manager) : List (Nat × Text × Option SockAddr) :=
  connectCalls m.streamName 0 m.info.upstreams m.info.vettedAddrs

def State.setWorker (s : State) (w : Nat) (worker : Worker) : State :=
  {s with workers := Function.update s.workers w worker}

def Manager.step (m : Manager) (s : State) : Label → Option State
  | .connectLeg call connected now =>
    if s.owned && decide (call ∈ m.calls) then
      some {s with
        reconnect := recordFailure (fun _ => connected) now s.reconnect call
        children := if connected then s.children ++ [call.2.1] else s.children}
    else none
  | .adopt w url =>
    if decide (url ∈ s.children) && decide ((s.workers w).phase = .idle) then
      some {s.setWorker w {s.workers w with roles := url::(s.workers w).roles} with children := s.children.erase url}
    else none
  | .uninitUnqueued url now =>
    if s.owned && decide (url ∈ s.children) then
      some {s with reconnect := addReconnectStream url now s.reconnect,children := s.children.erase url}
    else none
  | .checkInvalidSock w url =>
    if s.owned && decide (url ∈ (s.workers w).roles) && decide ((s.workers w).phase = .idle) then
      -- queued once: a manager already in the list is not pushed again
      some (s.setWorker w {s.workers w with queued := true,phase := .tearing url,roles := (s.workers w).roles.erase url})
    else none
  | .uninitChild w now =>
    match (s.workers w).phase with
    | .tearing url =>
      some {s.setWorker w {s.workers w with phase := .idle} with reconnect := addReconnectStream url now s.reconnect}
    | _ => none
  | .reconnect w cur noPublisher connect =>
    if s.owned && (s.workers w).queued && decide ((s.workers w).phase = .idle) then
      let round := reconnectAll connect cur m.info.reconnectInterval noPublisher s.reconnect
      some {s.setWorker w {s.workers w with phase := if round.2 then .dropping else .idle} with
        reconnect := round.1
        children := s.children ++
          (reconnectCalls cur m.info.reconnectInterval noPublisher s.reconnect).filter connect}
    else none
  | .eraseEntry w =>
    if (s.workers w).phase = .dropping then some (s.setWorker w {s.workers w with queued := false,phase := .idle}) else none
  | .reload => some {s with workers := fun w => {s.workers w with reload := true}}
  | .leaveLoop w stopped =>
    if (s.workers w).phase = .idle ∧ (stopped = true ∨ (s.workers w).reload = true ∧ (s.workers w).roles = []) then
      some (s.setWorker w {s.workers w with phase := .ended})
    else none
  | .clear w url now =>
    if s.owned && decide (url ∈ (s.workers w).roles) && decide ((s.workers w).phase = .ended) then
      some {s.setWorker w {s.workers w with roles := (s.workers w).roles.erase url} with
        reconnect := addReconnectStream url now s.reconnect}
    else none
  | .deleteWorker w =>
    if (s.workers w).phase = .ended ∧ (s.workers w).roles = [] then
      some (s.setWorker w {s.workers w with queued := false})
    else none
  | .release => some {s with owned := false}

def Manager.machine (m : Manager) : Machine State Label := ⟨m.step⟩

/-- While the manager is owned, a pending leg has it queued with some worker that goes on. -/
def State.Retried (s : State) : Prop :=
  s.owned = true → s.reconnect ≠ [] → ∃ w, (s.workers w).queued = true ∧ (s.workers w).phase ≠ .ended

/-- A leg is pending already, or `check_invalid_sock` is about to record one. -/
def State.Awaits (s : State) : Prop := s.reconnect ≠ [] ∨ ∃ w url, (s.workers w).phase = .tearing url

/-- Legs are recorded by `check_invalid_sock`, or where one is pending; no round reports
success over a leg that was not due; and no worker that has the manager in its list ends
over a pending leg. -/
def Manager.Queues (m : Manager) (s : State) : Label → Prop
  | .connectLeg _ connected _ => connected = true ∨ s.Awaits
  | .uninitUnqueued _ _ => s.Awaits
  | .clear _ _ _ => s.Awaits
  | .reconnect _ cur noPublisher connect =>
    ¬ (noPublisher = false ∧
      (∃ first rest, s.reconnect = first::rest ∧ isDue cur m.info.reconnectInterval first = true) ∧
      (∀ entry ∈ s.reconnect, isDue cur m.info.reconnectInterval entry = true → connect entry.1 = true) ∧
      ∃ entry ∈ s.reconnect, isDue cur m.info.reconnectInterval entry = false)
  | .leaveLoop w _ => (s.workers w).queued = false ∨ s.reconnect = []
  | _ => True

/-- This worker keeps the manager in its list. -/
def Worker.Keeps (worker : Worker) : Prop :=
  worker.queued = true ∧ worker.phase ≠ .dropping ∧ worker.phase ≠ .ended

structure State.Sound (s : State) : Prop where
  kept : s.reconnect ≠ [] → ∃ w, (s.workers w).Keeps
  tearing : ∀ w url, (s.workers w).phase = .tearing url → (s.workers w).queued = true

theorem State.start_sound : State.start.Sound where
  kept := fun pending => absurd rfl pending
  tearing := fun _ _ phase => by simp [State.start] at phase

theorem State.Sound.retried {s : State} (sound : s.Sound) : s.Retried := by
  intro _ pending
  obtain ⟨w,queued,_,running⟩ := sound.kept pending
  exact ⟨w,queued,running⟩

theorem State.Sound.awaits {s : State} (sound : s.Sound) (awaits : s.Awaits) : ∃ w, (s.workers w).Keeps := by
  rcases awaits with pending | ⟨w,url,phase⟩
  · exact sound.kept pending
  · exact ⟨w,sound.tearing w url phase,by simp [phase],by simp [phase]⟩

theorem State.Sound.move {s next : State} (sound : s.Sound) (w : Nat) (worker : Worker)
    (workers : next.workers = Function.update s.workers w worker)
    (tearing : ∀ url, worker.phase = .tearing url → worker.queued = true)
    (kept : next.reconnect ≠ [] → worker.Keeps ∨ ∃ v, v ≠ w ∧ (s.workers v).Keeps) : next.Sound := by
  constructor
  · intro pending
    rcases kept pending with mine | ⟨v,other,theirs⟩
    · exact ⟨w,by rw [workers,Function.update_self]; exact mine⟩
    · exact ⟨v,by rw [workers,Function.update_of_ne other]; exact theirs⟩
  · intro v url phase
    by_cases same : v = w
    · subst v
      rw [workers,Function.update_self] at phase ⊢
      exact tearing url phase
    · rw [workers,Function.update_of_ne same] at phase ⊢
      exact sound.tearing v url phase

theorem State.Sound.hold {s next : State} (sound : s.Sound) (w : Nat) (worker : Worker)
    (workers : next.workers = Function.update s.workers w worker)
    (tearing : ∀ url, worker.phase = .tearing url → worker.queued = true)
    (holds : (s.workers w).Keeps → worker.Keeps) (kept : next.reconnect ≠ [] → ∃ v, (s.workers v).Keeps) : next.Sound := by
  refine sound.move w worker workers tearing fun pending => ?_
  obtain ⟨v,keeps⟩ := kept pending
  by_cases same : v = w
  · exact .inl (holds (same ▸ keeps))
  · exact .inr ⟨v,same,keeps⟩

theorem reconnectAll_empties (connect : Text → Bool) (cur interval : Int) (noPublisher : Bool) (map : ReconnectMap)
    (ok : (reconnectAll connect cur interval noPublisher map).2 = true)
    (due : ¬ (noPublisher = false ∧ (∃ first rest, map = first::rest ∧ isDue cur interval first = true) ∧
      (∀ entry ∈ map, isDue cur interval entry = true → connect entry.1 = true) ∧
      ∃ entry ∈ map, isDue cur interval entry = false)) :
    (reconnectAll connect cur interval noPublisher map).1 = [] := by
  rcases reconnectAll_ok connect cur interval noPublisher map ok with rfl | ⟨present,first,connects⟩
  · rfl
  · subst noPublisher
    rw [reconnectAll,reconnectFrom_rest connect cur interval false map connects,List.filter_eq_nil_iff]
    intro entry member waiting
    exact due ⟨rfl,first,connects,entry,member,by simpa using waiting⟩

theorem Manager.keeps_sound (m : Manager) : m.machine.Keeps m.Queues State.Sound := by
  intro s label next sound queues stepped
  change m.step s label = some next at stepped
  cases label with
  | connectLeg call connected now =>
    simp only [Manager.step] at stepped
    split at stepped <;> cases stepped
    refine ⟨?_,sound.tearing⟩
    intro pending
    rcases queues with rfl | awaits
    · exact sound.kept pending
    · exact sound.awaits awaits
  | adopt w url =>
    simp only [Manager.step] at stepped
    split at stepped <;> cases stepped
    exact sound.hold w _ rfl (sound.tearing w) id sound.kept
  | uninitUnqueued url now =>
    simp only [Manager.step] at stepped
    split at stepped <;> cases stepped
    exact ⟨fun _ => sound.awaits queues,sound.tearing⟩
  | checkInvalidSock w url =>
    simp only [Manager.step] at stepped
    split at stepped <;> cases stepped
    refine sound.move w _ rfl (fun _ _ => rfl) fun _ => .inl ⟨rfl,?_,?_⟩
    · exact Phase.noConfusion
    · exact Phase.noConfusion
  | uninitChild w now =>
    simp only [Manager.step] at stepped
    split at stepped
    next url tearing =>
      cases stepped
      refine sound.move w _ rfl (fun _ other => by cases other) fun _ => .inl ⟨sound.tearing w url tearing,?_,?_⟩
      · exact Phase.noConfusion
      · exact Phase.noConfusion
    · cases stepped
  | reconnect w cur noPublisher connect =>
    simp only [Manager.step] at stepped
    split at stepped
    next guard =>
      cases stepped
      simp only [Bool.and_eq_true] at guard
      obtain ⟨⟨_,queued⟩,_⟩ := guard
      by_cases ok : (reconnectAll connect cur m.info.reconnectInterval noPublisher s.reconnect).2 = true
      · rw [if_pos ok]
        refine sound.move w _ rfl (fun _ _ => queued) fun pending => ?_
        exact absurd (reconnectAll_empties connect cur m.info.reconnectInterval noPublisher s.reconnect ok queues) pending
      · rw [if_neg ok]
        refine sound.move w _ rfl (fun _ _ => queued) fun _ => .inl ⟨queued,?_,?_⟩
        · exact Phase.noConfusion
        · exact Phase.noConfusion
    · cases stepped
  | eraseEntry w =>
    simp only [Manager.step] at stepped
    split at stepped
    next dropping =>
      cases stepped
      refine sound.hold w _ rfl (fun _ other => by cases other) (fun keeps => ?_) sound.kept
      exact absurd dropping keeps.2.1
    · cases stepped
  | reload =>
    cases Option.some.inj stepped
    exact ⟨sound.kept,sound.tearing⟩
  | leaveLoop w stopped =>
    simp only [Manager.step] at stepped
    split at stepped
    · cases stepped
      refine sound.move w _ rfl (fun _ other => by cases other) fun pending => ?_
      rcases queues with absent | none
      · obtain ⟨v,keeps⟩ := sound.kept pending
        refine .inr ⟨v,?_,keeps⟩
        rintro rfl
        exact absurd (absent.symm.trans keeps.1) Bool.false_ne_true
      · exact absurd none pending
    · cases stepped
  | clear w url now =>
    simp only [Manager.step] at stepped
    split at stepped <;> cases stepped
    exact sound.hold w _ rfl (sound.tearing w) id fun _ => sound.awaits queues
  | deleteWorker w =>
    simp only [Manager.step] at stepped
    split at stepped
    next ended =>
      cases stepped
      refine sound.hold w _ rfl (fun url other => ?_) (fun keeps => absurd ended.1 keeps.2.2) sound.kept
      exact absurd (ended.1.symm.trans other) Phase.noConfusion
    · cases stepped
  | release =>
    cases Option.some.inj stepped
    exact ⟨sound.kept,sound.tearing⟩

/-- In every run in which legs are recorded by `check_invalid_sock` or beside a pending
one, rounds report success only over due legs, and no worker with the manager in its list
ends over a pending leg, every pending leg is retried. -/
theorem pending_legs_retried (m : Manager) (labels : List Label) (s : State)
    (admitted : m.machine.Admits m.Queues State.start labels)
    (ran : m.machine.run State.start labels = some s) : s.Retried :=
  (m.keeps_sound.run State.start_sound admitted ran).retried

def oneLeg : Manager := ⟨⟨[ascii "srt://a:1?streamid=x"],[],10⟩,ascii "s"⟩

/-- The child comes up, is adopted by worker 3 and falls; a reloaded worker ends beside it. -/
def fallen : List Label :=
  [.connectLeg (0,ascii "srt://a:1?streamid=x",none) true 0,.adopt 3 (ascii "srt://a:1?streamid=x"),.reload,
    .checkInvalidSock 3 (ascii "srt://a:1?streamid=x"),.uninitChild 3 5,.leaveLoop 2 false]

theorem pending_legs_retried_child :
    ∃ s, oneLeg.machine.run State.start fallen = some s ∧
      s.reconnect = [(ascii "srt://a:1?streamid=x",5)] ∧ s.Retried := by
  refine ⟨_,rfl,by decide,pending_legs_retried oneLeg fallen _ ?_ rfl⟩
  refine ⟨Or.inl rfl,?_⟩
  rintro _ ⟨⟩
  exact ⟨trivial,fun _ stepped => by
    cases stepped
    exact ⟨trivial,fun _ stepped => by
      cases stepped
      exact ⟨trivial,fun _ stepped => by
        cases stepped
        exact ⟨trivial,fun _ stepped => by
          cases stepped
          exact ⟨Or.inl rfl,fun _ _ => trivial⟩⟩⟩⟩⟩

/-- Reloaded over the pending leg, the worker takes its list along. -/
example : (oneLeg.machine.run State.start [.connectLeg (0,ascii "srt://a:1?streamid=x",none) true 0,
    .adopt 3 (ascii "srt://a:1?streamid=x"),.checkInvalidSock 3 (ascii "srt://a:1?streamid=x"),.uninitChild 3 5,
    .reload,.leaveLoop 3 false,.deleteWorker 3]).map (fun s => (s.owned,s.reconnect.length,(s.workers 3).queued)) =
      some (true,1,false) := by decide

/-- The first connect fails: the leg is recorded and no worker knows the manager. -/
theorem initial_failure_never_queued :
    ¬ ∀ (m : Manager) (labels : List Label) (s : State),
      m.machine.run State.start labels = some s → s.Retried := by
  intro claim
  obtain ⟨w,queued,_⟩ := claim oneLeg [.connectLeg (0,ascii "srt://a:1?streamid=x",none) false 0] _ rfl rfl (by decide)
  cases queued

end SrtLiveServer.PushRetry
