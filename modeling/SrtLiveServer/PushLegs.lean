import SrtLiveServer.PusherManager
import SrtLiveServer.Transition
import Mathlib.Data.List.Nodup
import Mathlib.Logic.Function.Basic

/-! The children of one configured `CSLSPusherManager`. `start` runs again for each
admitted publisher and connects its legs one by one; children drop and are recorded
for a retry, and workers run reconnect rounds, all between each other's steps. -/
namespace SrtLiveServer.PushLegs
open Bytes PusherManager Transition

structure Manager where
  appUplive : Text
  streamName : Text
  upstreams : List Text
  reconnectInterval : Int

def Manager.fits (m : Manager) : Bool := (m.appUplive ++ ascii "/" ++ m.streamName).length < 2048

def Manager.legs (m : Manager) : List Text := (connectCalls m.streamName 0 m.upstreams []).map fun call => call.2.1

/-- Where a worker is in `reconnect`; from `looping` on it holds `m_rwclock`. -/
inductive Call where
  | idle
  | looked (noPublisher : Bool)
  | looping (noPublisher : Bool) (cur : Int) (rest : ReconnectMap)
deriving DecidableEq

structure State where
  publisher : Bool
  /-- The URLs of the children alive, one entry a child. -/
  live : List Text
  /-- Children dropped whose `uninit` has not recorded them yet. -/
  leaving : List Text
  reconnectRelay : ReconnectMap
  /-- The worker that holds `m_rwclock`. -/
  lock : Option Nat
  /-- The legs each running `connect_all` still has before it. -/
  starts : Nat → List Text
  calls : Nat → Call

def State.start : State where
  publisher := false
  live := []
  leaving := []
  reconnectRelay := []
  lock := none
  starts := fun _ => []
  calls := fun _ => .idle

inductive Label where
  | admitPublisher
  | endPublisher
  | start (caller : Nat)
  | connectLeg (caller : Nat) (connected : Bool) (now : Int)
  | dropChild (url : Text)
  | addReconnectStream (url : Text) (now : Int)
  | look (worker : Nat)
  | enter (worker : Nat) (cur : Int)
  /-- One entry of `reconnect_all`. -/
  | visit (worker : Nat) (connected : Bool)
  | leave (worker : Nat)
deriving DecidableEq

def ReconnectMap.urls (map : ReconnectMap) : List Text := map.map Prod.fst

def ReconnectMap.erase (map : ReconnectMap) (url : Text) : ReconnectMap := map.filter fun entry => entry.1 ≠ url

def State.setCall (s : State) (worker : Nat) (call : Call) : State := {s with calls := Function.update s.calls worker call}

def State.setStart (s : State) (caller : Nat) (legs : List Text) : State :=
  {s with starts := Function.update s.starts caller legs}

def State.connectLeg (s : State) (caller : Nat) (url : Text) (rest : List Text) (connected : Bool) (now : Int) :
    Option State :=
  if connected then some {s.setStart caller rest with live := s.live ++ [url]}
  -- a failed leg is recorded under the lock
  else if s.lock = none then some {s.setStart caller rest with reconnectRelay := s.reconnectRelay.set url now}
  else none

def Manager.visit (m : Manager) (s : State) (worker : Nat) (noPublisher : Bool) (cur : Int) (entry : Text × Int)
    (rest : ReconnectMap) (connected : Bool) : State :=
  let next := s.setCall worker (.looping noPublisher cur rest)
  if !isDue cur m.reconnectInterval entry then next
  else if noPublisher || !connected then {next with reconnectRelay := s.reconnectRelay.set entry.1 cur}
  else {next with live := s.live ++ [entry.1],reconnectRelay := ReconnectMap.erase s.reconnectRelay entry.1}

def Manager.step (m : Manager) (s : State) : Label → Option State
  | .admitPublisher => some {s with publisher := true}
  | .endPublisher => some {s with publisher := false}
  | .start caller =>
    if s.starts caller = [] then some (if m.fits && s.publisher then s.setStart caller m.legs else s) else none
  | .connectLeg caller connected now => match s.starts caller with
    | url::rest => s.connectLeg caller url rest connected now
    | [] => none
  | .dropChild url =>
    if url ∈ s.live then some {s with live := s.live.erase url,leaving := s.leaving ++ [url]} else none
  | .addReconnectStream url now =>
    if url ∈ s.leaving ∧ s.lock = none then
      some {s with leaving := s.leaving.erase url,reconnectRelay := addReconnectStream url now s.reconnectRelay}
    else none
  | .look w =>
    if s.calls w = .idle ∧ m.fits = true then some (s.setCall w (.looked (!s.publisher))) else none
  | .enter w cur => match s.calls w,s.lock with
    | .looked noPublisher,none => some {s.setCall w (.looping noPublisher cur s.reconnectRelay) with lock := some w}
    | _,_ => none
  | .visit w connected => match s.calls w with
    | .looping noPublisher cur (entry::rest) => some (m.visit s w noPublisher cur entry rest connected)
    | _ => none
  | .leave w => match s.calls w with
    | .looping _ _ [] => some {s.setCall w .idle with lock := none}
    | _ => none

def Manager.machine (m : Manager) : Machine State Label := ⟨m.step⟩

/-- A leg of `start` finds no child of its URL alive or being torn down, and where it
connects, no entry waiting for a retry. -/
def State.ClearOf (s : State) (connected : Bool) : List Text → Prop
  | url::_ => url ∉ s.live ∧ url ∉ s.leaving ∧ (connected = true → url ∉ ReconnectMap.urls s.reconnectRelay)
  | [] => True

def State.ClearLeg (s : State) : Label → Prop
  | .connectLeg caller connected _ => s.ClearOf connected (s.starts caller)
  | _ => True

instance (s : State) (connected : Bool) : (legs : List Text) → Decidable (s.ClearOf connected legs)
  | _::_ => inferInstanceAs (Decidable (_ ∧ _ ∧ _))
  | [] => inferInstanceAs (Decidable True)

instance (s : State) : (label : Label) → Decidable (s.ClearLeg label)
  | .connectLeg caller connected _ => inferInstanceAs (Decidable (s.ClearOf connected (s.starts caller)))
  | .admitPublisher | .endPublisher | .start _ | .dropChild _ | .addReconnectStream _ _ | .look _ | .enter _ _
  | .visit _ _ | .leave _ => inferInstanceAs (Decidable True)

def Sorted (map : ReconnectMap) : Prop := map.Pairwise fun a b => a.1 < b.1

/-- A URL is with one child or waiting for a retry, never both, and the entries a
round still has before it are waiting. -/
structure State.Sound (s : State) : Prop where
  distinct : (s.live ++ s.leaving).Nodup
  apart : ∀ url ∈ s.live ++ s.leaving, url ∉ ReconnectMap.urls s.reconnectRelay
  sorted : Sorted s.reconnectRelay
  round : ∀ w noPublisher cur rest, s.calls w = .looping noPublisher cur rest →
    s.lock = some w ∧ Sorted rest ∧ ∀ entry ∈ rest, entry.1 ∈ ReconnectMap.urls s.reconnectRelay

theorem mem_urls_set (url other : Text) (tm : Int) (map : ReconnectMap) :
    other ∈ ReconnectMap.urls (map.set url tm) ↔ other = url ∨ other ∈ ReconnectMap.urls map := by
  induction map with
  | nil => simp [ReconnectMap.set,ReconnectMap.urls]
  | cons entry rest ih =>
    simp only [ReconnectMap.urls] at ih ⊢
    rw [ReconnectMap.set]
    split
    · rename_i same
      simp [same]
    · split
      · simp
      · simp only [List.map_cons,List.mem_cons,ih]
        tauto

theorem mem_urls_erase (url other : Text) (map : ReconnectMap) :
    other ∈ ReconnectMap.urls (ReconnectMap.erase map url) ↔ other ∈ ReconnectMap.urls map ∧ other ≠ url := by
  simp only [ReconnectMap.urls,ReconnectMap.erase,List.mem_map,List.mem_filter,decide_eq_true_eq]
  constructor
  · rintro ⟨entry,⟨member,ne⟩,rfl⟩
    exact ⟨⟨entry,member,rfl⟩,ne⟩
  · rintro ⟨⟨entry,member,rfl⟩,ne⟩
    exact ⟨entry,⟨member,ne⟩,rfl⟩

theorem Sorted.set {map : ReconnectMap} (sorted : Sorted map) (url : Text) (tm : Int) : Sorted (map.set url tm) := by
  unfold Sorted at sorted ⊢
  induction map with
  | nil => exact List.pairwise_singleton _ _
  | cons entry rest ih =>
    obtain ⟨above,sorted⟩ := List.pairwise_cons.mp sorted
    rw [ReconnectMap.set]
    split
    · rename_i same
      exact List.pairwise_cons.mpr ⟨fun e member => same ▸ above e member,sorted⟩
    · rename_i other
      split
      · rename_i below
        refine List.pairwise_cons.mpr ⟨?_,List.pairwise_cons.mpr ⟨above,sorted⟩⟩
        intro e member
        obtain rfl | later := List.mem_cons.mp member
        · exact below
        · exact List.lt_trans below (above e later)
      · rename_i notBelow
        refine List.pairwise_cons.mpr ⟨?_,ih sorted⟩
        intro e member
        have isUrl : e.1 ∈ ReconnectMap.urls (ReconnectMap.set url tm rest) := List.mem_map_of_mem member
        obtain same | later := (mem_urls_set url e.1 tm rest).mp isUrl
        · rw [same]
          exact Std.lt_of_le_of_ne notBelow fun same => other same.symm
        · obtain ⟨e',member',same⟩ := List.mem_map.mp later
          exact same ▸ above e' member'

theorem State.Sound.frame {s next : State} (sound : s.Sound) (live : next.live = s.live) (leaving : next.leaving = s.leaving)
    (pending : next.reconnectRelay = s.reconnectRelay) (lock : next.lock = s.lock) (calls : next.calls = s.calls) :
    next.Sound where
  distinct := by rw [live,leaving]; exact sound.distinct
  apart := by rw [live,leaving,pending]; exact sound.apart
  sorted := by rw [pending]; exact sound.sorted
  round := by rw [calls,lock,pending]; exact sound.round

theorem State.Sound.noRound {s : State} (sound : s.Sound) (free : s.lock = none) {w : Nat} {noPublisher : Bool} {cur : Int}
    {rest : ReconnectMap} : s.calls w ≠ .looping noPublisher cur rest := by
  intro looping
  have held := (sound.round w noPublisher cur rest looping).1
  rw [free] at held
  cases held

theorem State.Sound.distinct_snoc {s : State} (sound : s.Sound) {url : Text} (fresh : url ∉ s.live ++ s.leaving) :
    (s.live ++ [url] ++ s.leaving).Nodup := by
  rw [List.append_assoc,List.singleton_append,List.nodup_middle]
  exact List.nodup_cons.mpr ⟨fresh,sound.distinct⟩

theorem State.Sound.setStart {s : State} (sound : s.Sound) (caller : Nat) (legs : List Text) : (s.setStart caller legs).Sound :=
  sound.frame rfl rfl rfl rfl rfl

theorem State.Sound.connectLeg {s next : State} (sound : s.Sound) {caller : Nat} {url : Text} {rest : List Text}
    {connected : Bool} {now : Int} (clear : s.ClearOf connected (url::rest))
    (stepped : s.connectLeg caller url rest connected now = some next) : next.Sound := by
  obtain ⟨notLive,notLeaving,notPending⟩ := clear
  unfold State.connectLeg at stepped
  split at stepped
  · rename_i connects
    cases stepped
    refine ⟨?_,?_,sound.sorted,sound.round⟩
    · exact sound.distinct_snoc (by simp [notLive,notLeaving])
    · intro other member
      have cases : other = url ∨ other ∈ s.live ++ s.leaving := by
        simp only [List.mem_append,List.mem_singleton] at member ⊢
        tauto
      obtain rfl | old := cases
      · exact notPending connects
      · exact sound.apart other old
  · split at stepped
    · rename_i free
      cases stepped
      refine ⟨sound.distinct,?_,sound.sorted.set url now,fun w _ _ _ looping => absurd looping (sound.noRound free)⟩
      intro other member pending
      obtain rfl | old := (mem_urls_set url other now s.reconnectRelay).mp pending
      · exact (List.mem_append.mp member).elim notLive notLeaving
      · exact sound.apart other member old
    · cases stepped

theorem State.Sound.dropChild {s : State} (sound : s.Sound) {url : Text} (alive : url ∈ s.live) :
    State.Sound {s with live := s.live.erase url,leaving := s.leaving ++ [url]} := by
  have moved : (s.live.erase url ++ (s.leaving ++ [url])).Perm (s.live ++ s.leaving) := by
    rw [← List.append_assoc]
    calc (s.live.erase url ++ s.leaving ++ [url]).Perm (url::(s.live.erase url ++ s.leaving)) := List.perm_append_singleton ..
      _ = url::s.live.erase url ++ s.leaving := rfl
      _ |>.Perm (s.live ++ s.leaving) := (List.perm_cons_erase alive).symm.append_right _
  exact {
    distinct := moved.nodup_iff.mpr sound.distinct
    apart := fun other member => sound.apart other (moved.mem_iff.mp member)
    sorted := sound.sorted
    round := sound.round}

theorem State.Sound.addReconnectStream {s : State} (sound : s.Sound) {url : Text} (now : Int) (gone : url ∈ s.leaving)
    (free : s.lock = none) : State.Sound {s with
      leaving := s.leaving.erase url
      reconnectRelay := addReconnectStream url now s.reconnectRelay} := by
  have fewer : (s.live ++ s.leaving.erase url).Sublist (s.live ++ s.leaving) :=
    List.Sublist.append_left List.erase_sublist _
  obtain ⟨_,leaving,disjoint⟩ := List.nodup_append.mp sound.distinct
  refine ⟨sound.distinct.sublist fewer,?_,sound.sorted.set url now,fun w _ _ _ looping => absurd looping (sound.noRound free)⟩
  intro other member pending
  obtain rfl | old := (mem_urls_set url other now s.reconnectRelay).mp pending
  · obtain alive | left := List.mem_append.mp member
    · exact disjoint other alive other gone rfl
    · exact leaving.not_mem_erase left
  · exact sound.apart other (fewer.subset member) old

theorem State.setCall_cases {s : State} {worker w : Nat} {call call' : Call}
    (now : (s.setCall worker call).calls w = call') : (w = worker ∧ call = call') ∨ (w ≠ worker ∧ s.calls w = call') := by
  by_cases same : w = worker
  · subst same
    exact .inl ⟨rfl,by simpa [State.setCall] using now⟩
  · exact .inr ⟨same,by simpa [State.setCall,same] using now⟩

theorem State.Sound.setCall {s : State} (sound : s.Sound) (worker : Nat) (call : Call)
    (fits : ∀ noPublisher cur rest, call = .looping noPublisher cur rest →
      s.lock = some worker ∧ Sorted rest ∧ ∀ entry ∈ rest, entry.1 ∈ ReconnectMap.urls s.reconnectRelay) :
    (s.setCall worker call).Sound := by
  refine ⟨sound.distinct,sound.apart,sound.sorted,?_⟩
  intro w noPublisher cur rest looping
  obtain ⟨rfl,mine⟩ | ⟨_,theirs⟩ := State.setCall_cases looping
  · exact fits noPublisher cur rest mine
  · exact sound.round w noPublisher cur rest theirs

theorem State.Sound.enter {s : State} (sound : s.Sound) (worker : Nat) (noPublisher : Bool) (cur : Int)
    (free : s.lock = none) :
    State.Sound {s.setCall worker (.looping noPublisher cur s.reconnectRelay) with lock := some worker} := by
  refine ⟨sound.distinct,sound.apart,sound.sorted,?_⟩
  intro w noPublisher' cur' rest looping
  obtain ⟨rfl,mine⟩ | ⟨_,theirs⟩ := State.setCall_cases looping
  · cases mine
    exact ⟨rfl,sound.sorted,fun entry member => List.mem_map_of_mem member⟩
  · exact absurd theirs (sound.noRound free)

theorem State.Sound.leave {s : State} (sound : s.Sound) {worker : Nat} {noPublisher : Bool} {cur : Int}
    (here : s.calls worker = .looping noPublisher cur []) : State.Sound {s.setCall worker .idle with lock := none} := by
  refine ⟨sound.distinct,sound.apart,sound.sorted,?_⟩
  intro w noPublisher' cur' rest looping
  obtain ⟨_,mine⟩ | ⟨other,theirs⟩ := State.setCall_cases looping
  · cases mine
  · have mine := (sound.round worker noPublisher cur [] here).1
    have held := (sound.round w noPublisher' cur' rest theirs).1
    exact absurd (Option.some.inj (held.symm.trans mine)) other

theorem State.Sound.visit {s : State} (sound : s.Sound) (m : Manager) {worker : Nat} {noPublisher : Bool} {cur : Int}
    {entry : Text × Int} {rest : ReconnectMap} (here : s.calls worker = .looping noPublisher cur (entry::rest))
    (connected : Bool) : (m.visit s worker noPublisher cur entry rest connected).Sound := by
  obtain ⟨held,sorted,waiting⟩ := sound.round worker noPublisher cur (entry::rest) here
  obtain ⟨above,sorted⟩ := List.pairwise_cons.mp sorted
  have isWaiting := waiting entry List.mem_cons_self
  have next : (s.setCall worker (.looping noPublisher cur rest)).Sound := by
    refine sound.setCall worker _ ?_
    intro noPublisher' cur' rest' same
    cases same
    exact ⟨held,sorted,fun e member => waiting e (List.mem_cons_of_mem entry member)⟩
  -- another worker in a round would hold the lock as well
  have only : ∀ w noPublisher' cur' rest', (s.setCall worker (.looping noPublisher cur rest)).calls w =
      .looping noPublisher' cur' rest' → w = worker ∧ rest' = rest := by
    intro w noPublisher' cur' rest' looping
    have theirs := (next.round w noPublisher' cur' rest' looping).1
    obtain ⟨same,mine⟩ | ⟨other,_⟩ := State.setCall_cases looping
    · cases mine
      exact ⟨same,rfl⟩
    · exact absurd (Option.some.inj (theirs.symm.trans held)) other
  unfold Manager.visit
  dsimp only
  split
  · exact next
  · split
    · refine ⟨sound.distinct,?_,sound.sorted.set entry.1 cur,?_⟩
      · intro other member pending
        obtain rfl | old := (mem_urls_set entry.1 other cur s.reconnectRelay).mp pending
        · exact sound.apart _ member isWaiting
        · exact sound.apart other member old
      · intro w noPublisher' cur' rest' looping
        obtain ⟨lock,sorted',waiting'⟩ := next.round w noPublisher' cur' rest' looping
        exact ⟨lock,sorted',fun e member => (mem_urls_set ..).mpr (.inr (waiting' e member))⟩
    · have fresh : entry.1 ∉ s.live ++ s.leaving := fun member => sound.apart entry.1 member isWaiting
      refine ⟨?_,?_,sound.sorted.filter _,?_⟩
      · exact sound.distinct_snoc fresh
      · intro other member pending
        obtain ⟨old,ne⟩ := (mem_urls_erase entry.1 other s.reconnectRelay).mp pending
        refine sound.apart other ?_ old
        simp only [List.mem_append,List.mem_singleton] at member ⊢
        tauto
      · intro w noPublisher' cur' rest' looping
        obtain ⟨rfl,rfl⟩ := only w noPublisher' cur' rest' looping
        refine ⟨held,sorted,fun e member => (mem_urls_erase ..).mpr ⟨waiting e (List.mem_cons_of_mem entry member),?_⟩⟩
        intro same
        have later := above e member
        rw [same] at later
        exact List.lt_irrefl _ later

theorem Manager.keeps_sound (m : Manager) : m.machine.Keeps State.ClearLeg State.Sound := by
  intro s label next sound clear stepped
  replace stepped : m.step s label = some next := stepped
  cases label with
  | admitPublisher =>
    cases stepped
    exact sound.frame rfl rfl rfl rfl rfl
  | endPublisher =>
    cases stepped
    exact sound.frame rfl rfl rfl rfl rfl
  | start caller =>
    simp only [Manager.step] at stepped
    split at stepped
    · cases stepped
      split
      · exact sound.setStart caller m.legs
      · exact sound
    · cases stepped
  | connectLeg caller connected now =>
    simp only [Manager.step] at stepped
    split at stepped
    · rename_i url rest legs
      rw [State.ClearLeg,legs] at clear
      exact sound.connectLeg clear stepped
    · cases stepped
  | dropChild url =>
    simp only [Manager.step] at stepped
    split at stepped
    · rename_i alive
      cases stepped
      exact sound.dropChild alive
    · cases stepped
  | addReconnectStream url now =>
    simp only [Manager.step] at stepped
    split at stepped
    · rename_i ready
      cases stepped
      exact sound.addReconnectStream now ready.1 ready.2
    · cases stepped
  | look w =>
    simp only [Manager.step] at stepped
    split at stepped
    · cases stepped
      exact sound.setCall w _ fun _ _ _ looping => by cases looping
    · cases stepped
  | enter w cur =>
    simp only [Manager.step] at stepped
    split at stepped
    · rename_i noPublisher _ free
      cases stepped
      exact sound.enter w noPublisher cur free
    · cases stepped
  | visit w connected =>
    simp only [Manager.step] at stepped
    split at stepped
    · rename_i noPublisher cur entry rest here
      cases stepped
      exact sound.visit m here connected
    · cases stepped
  | leave w =>
    simp only [Manager.step] at stepped
    split at stepped
    · rename_i noPublisher cur here
      cases stepped
      exact sound.leave here
    · cases stepped

theorem State.start_sound : State.start.Sound where
  distinct := List.nodup_nil
  apart := fun _ member => by cases member
  sorted := List.Pairwise.nil
  round := fun _ _ _ _ looping => by cases looping

theorem push_legs_distinct (m : Manager) (labels : List Label) (s : State)
    (clear : m.machine.Admits State.ClearLeg State.start labels) (ran : m.machine.run State.start labels = some s) :
    s.live.Nodup :=
  ((m.keeps_sound.run State.start_sound clear ran).distinct).of_append_left

def oneUpstream : Manager where
  appUplive := ascii "live"
  streamName := ascii "cam"
  upstreams := [ascii "srt://192.0.2.9:9000?streamid=cam"]
  reconnectInterval := 10

def legUrl : Text := ascii "srt://192.0.2.9:9000?streamid=cam"

def lostAndReconnected : List Label :=
  [.admitPublisher,.start 0,.connectLeg 0 true 0,.dropChild legUrl,.addReconnectStream legUrl 1000,
    .look 1,.enter 1 12000,.visit 1 true,.leave 1]

theorem push_legs_distinct_reconnected :
    ∃ s, oneUpstream.machine.run State.start lostAndReconnected = some s ∧ s.live = [legUrl] ∧ s.live.Nodup := by
  have runs : (oneUpstream.machine.run State.start lostAndReconnected).map State.live = some [legUrl] := by decide
  obtain ⟨s,ran,live⟩ := Option.map_eq_some_iff.mp runs
  exact ⟨s,ran,live,push_legs_distinct oneUpstream lostAndReconnected s (by decide) ran⟩

/-- The publisher comes back while the child of its first session is still alive. -/
def publisherBack : List Label :=
  [.admitPublisher,.start 0,.connectLeg 0 true 0,.endPublisher,.admitPublisher,.start 0,.connectLeg 0 true 5000]

/-- The publisher comes back while the leg waits for its retry. -/
def publisherBackBeforeRetry : List Label :=
  [.admitPublisher,.start 0,.connectLeg 0 true 0,.dropChild legUrl,.addReconnectStream legUrl 1000,.endPublisher,
    .admitPublisher,.start 0,.connectLeg 0 true 5000,.look 1,.enter 1 12000,.visit 1 true,.leave 1]

theorem second_start_doubles_legs :
    ¬ (∀ (m : Manager) (labels : List Label) (s : State), m.upstreams.Nodup →
      m.machine.run State.start labels = some s → s.live.Nodup) ∧
    (oneUpstream.machine.run State.start publisherBackBeforeRetry).map State.live = some [legUrl,legUrl] := by
  refine ⟨?_,by decide⟩
  intro claim
  have runs : (oneUpstream.machine.run State.start publisherBack).map State.live = some [legUrl,legUrl] := by decide
  obtain ⟨s,ran,live⟩ := Option.map_eq_some_iff.mp runs
  have distinct := claim oneUpstream publisherBack s (List.nodup_singleton _) ran
  rw [live] at distinct
  revert distinct
  decide

end SrtLiveServer.PushLegs
