import SrtLiveServer.PusherManager
import SrtLiveServer.Transition
import Mathlib.Logic.Function.Basic

/-! The end of a publisher with a dynamic `CSLSPusherManager`: the steps of
`CSLSPublisher::uninit` between those of `reconnect` calls on other workers. A
call reads the publisher map once and connects its due legs later, each leg
recorded under a lock of its own. -/
namespace SrtLiveServer.PushTeardown
open Bytes PusherManager Transition

structure Manager where
  appUplive : Text
  streamName : Text
  reconnectInterval : Int

def Manager.keyStreamName (m : Manager) : Text := m.appUplive ++ ascii "/" ++ m.streamName

/-- The key fits the buffer of `set_relay_param`. -/
def Manager.fits (m : Manager) : Bool := m.keyStreamName.length < 1024

structure Child where
  url : Text
  /-- Its weak pointer leads to the manager. -/
  managed : Bool
  /-- It is on the role list, or a worker has it. -/
  handed : Bool
  kickRequested : Bool
  tornDown : Bool
deriving DecidableEq

/-- How far `CSLSPublisher::uninit` is. -/
inductive Phase where
  | live
  | detached
  | ringRemoved
  | unregistered
  | returned
deriving DecidableEq

inductive Publisher where
  | own
  /-- A later session under the same stream key. -/
  | later
deriving DecidableEq

/-- Where a worker is in `reconnect`; from `looping` on it holds `m_rwclock`. -/
inductive Call where
  | idle
  | pinned
  | looked (noPublisher : Bool)
  | looping (noPublisher : Bool) (cur : Int) (rest : ReconnectMap)
  /-- `connect` has opened the child. -/
  | opened (cur : Int) (rest : ReconnectMap) (child : Nat)
  | recorded (cur : Int) (rest : ReconnectMap) (child : Nat)
deriving DecidableEq

structure State where
  phase : Phase
  publisher : Option Publisher
  /-- Every pusher ever created, by number. -/
  children : List Child
  childRelays : List Nat
  reconnectRelay : ReconnectMap
  /-- The worker that holds `m_rwclock`. -/
  lock : Option Nat
  /-- Strong references to the manager held by `reconnect` calls. -/
  pins : Nat
  calls : Nat → Call

def State.start : State where
  phase := .live
  publisher := some .own
  children := []
  childRelays := []
  reconnectRelay := []
  lock := none
  pins := 0
  calls := fun _ => .idle

inductive Label where
  /-- One upstream of `connect_all`, on the publisher's worker. -/
  | connect (url : Text) (opens : Bool) (now : Int)
  | pin (worker : Nat)
  | look (worker : Nat)
  | enter (worker : Nat) (cur : Int)
  /-- One entry of `reconnect_all`, up to the end of `open` if it is tried. -/
  | visit (worker : Nat) (opens : Bool)
  | record (worker : Nat)
  | push (worker : Nat)
  | leave (worker : Nat)
  /-- The child's worker tears it down: kicked, idle, or its link is lost. -/
  | tearDown (child : Nat) (now : Int)
  | detach
  | removeRing
  | unregister
  | release
  | laterPublisher (joins : Bool)

/-- The manager can be locked through a weak pointer. -/
def State.alive (s : State) : Bool := s.phase ≠ .returned || 0 < s.pins

def State.setCall (s : State) (worker : Nat) (call : Call) : State := {s with calls := Function.update s.calls worker call}

/-- A new pusher, with `open` done; where that fails, `connect` tears it down. -/
def State.create (s : State) (url : Text) (opens : Bool) : State :=
  {s with children := s.children ++ [{url := url,managed := false,handed := false,kickRequested := false,tornDown := !opens}]}

/-- The recording in `set_relay_param`: expired pointers go, the child comes last. -/
def State.record (s : State) (child : Nat) : State :=
  {s with
    childRelays := (s.childRelays.filter fun i => s.children[i]?.any fun c => !c.tornDown) ++ [child]
    children := s.children.modify child fun c => {c with managed := true}}

def State.tearDownChild (s : State) (child : Nat) : State :=
  {s with children := s.children.modify child fun c => {c with tornDown := true}}

def State.hand (s : State) (child : Nat) : State :=
  {s with children := s.children.modify child fun c => {c with handed := true}}

def State.detachChildRelays (s : State) : State :=
  {s with
    children := s.children.mapIdx fun i c =>
      if i ∈ s.childRelays ∧ c.tornDown = false then {c with managed := false,kickRequested := true} else c
    childRelays := []}

/-- `connect` from `connect_all`; nothing of `uninit` falls into it. -/
def Manager.connect (m : Manager) (s : State) (url : Text) (opens : Bool) (now : Int) : State :=
  let made := s.create url opens
  let child := s.children.length
  if !opens then {made with reconnectRelay := made.reconnectRelay.set url now}
  else if m.fits then (made.record child).hand child
  else {made.tearDownChild child with reconnectRelay := made.reconnectRelay.set url now}

def Manager.visit (m : Manager) (s : State) (worker : Nat) (noPublisher : Bool) (cur : Int) (entry : Text × Int)
    (rest : ReconnectMap) (opens : Bool) : State :=
  if !isDue cur m.reconnectInterval entry then s.setCall worker (.looping noPublisher cur rest)
  else if noPublisher then
    {s.setCall worker (.looping noPublisher cur rest) with reconnectRelay := s.reconnectRelay.set entry.1 cur}
  else
    let made := s.create entry.1 opens
    if opens then made.setCall worker (.opened cur rest s.children.length)
    else {made.setCall worker (.looping noPublisher cur rest) with reconnectRelay := s.reconnectRelay.set entry.1 cur}

def Manager.setRelayParam (m : Manager) (s : State) (worker : Nat) (cur : Int) (rest : ReconnectMap) (child : Nat) : State :=
  if m.fits then (s.record child).setCall worker (.recorded cur rest child)
  else
    let url := (s.children[child]?.map Child.url).getD []
    {(s.tearDownChild child).setCall worker (.looping false cur rest) with reconnectRelay := s.reconnectRelay.set url cur}

def State.push (s : State) (worker : Nat) (cur : Int) (rest : ReconnectMap) (child : Nat) : State :=
  let url := (s.children[child]?.map Child.url).getD []
  {(s.hand child).setCall worker (.looping false cur rest) with
    reconnectRelay := s.reconnectRelay.filter fun entry => entry.1 ≠ url}

def State.uninitChild (s : State) (child : Nat) (c : Child) (now : Int) : State :=
  if c.managed && s.alive then
    {s.tearDownChild child with reconnectRelay := addReconnectStream c.url now s.reconnectRelay}
  else s.tearDownChild child

def Manager.step (m : Manager) (s : State) : Label → Option State
  | .connect url opens now =>
    if s.phase = .live ∧ ((opens = true ∧ m.fits = true) ∨ s.lock = none) then some (m.connect s url opens now) else none
  | .pin w =>
    if s.calls w = .idle ∧ s.alive = true then some {s.setCall w .pinned with pins := s.pins + 1} else none
  | .look w =>
    if s.calls w = .pinned then
      if 2048 ≤ m.keyStreamName.length then some {s.setCall w .idle with pins := s.pins - 1}
      else some (s.setCall w (.looked (s.publisher = none)))
    else none
  | .enter w cur => match s.calls w,s.lock with
    | .looked noPublisher,none => some {s.setCall w (.looping noPublisher cur s.reconnectRelay) with lock := some w}
    | _,_ => none
  | .visit w opens => match s.calls w with
    | .looping noPublisher cur (entry::rest) => some (m.visit s w noPublisher cur entry rest opens)
    | _ => none
  | .record w => match s.calls w with
    | .opened cur rest child => some (m.setRelayParam s w cur rest child)
    | _ => none
  | .push w => match s.calls w with
    | .recorded cur rest child => some (s.push w cur rest child)
    | _ => none
  | .leave w => match s.calls w with
    | .looping _ _ [] => some {s.setCall w .idle with lock := none,pins := s.pins - 1}
    | _ => none
  | .tearDown child now => s.children[child]?.bind fun c =>
    -- `add_reconnect_stream` waits for the lock
    if c.handed = true ∧ c.tornDown = false ∧ ((c.managed && s.alive) = true → s.lock = none) then
      some (s.uninitChild child c now)
    else none
  | .detach => if s.phase = .live then some {s.detachChildRelays with phase := .detached} else none
  | .removeRing => if s.phase = .detached then some {s with phase := .ringRemoved} else none
  | .unregister =>
    if s.phase = .ringRemoved then
      some {s with phase := .unregistered,publisher := if s.publisher = some .own then none else s.publisher}
    else none
  | .release => if s.phase = .unregistered then some {s with phase := .returned} else none
  | .laterPublisher joins => match joins,s.publisher with
    | true,none => some {s with publisher := some .later}
    | false,some .later => some {s with publisher := none}
    | _,_ => none

def Manager.machine (m : Manager) : Machine State Label := ⟨m.step⟩

/-- Once `uninit` has returned and no `reconnect` call is under way, every child
ever created is torn down or asked to go. -/
def State.NoOrphans (s : State) : Prop :=
  s.phase = .returned → (∀ w, s.calls w = .idle) → ∀ c ∈ s.children, c.tornDown = true ∨ c.kickRequested = true

/-- No child is recorded once `detach_child_relays` has run. -/
def Manager.RecordsInTime (m : Manager) (s : State) (label : Label) : Prop :=
  match label with
  | .record _ => m.fits = true → s.phase = .live
  | _ => True

/-- A child that may still run is on record for the coming detach, or in the hands
of the call that opened it. -/
def State.Accounted (s : State) (i : Nat) (c : Child) : Prop :=
  c.tornDown = true ∨ c.kickRequested = true ∨ (s.phase = .live ∧ i ∈ s.childRelays) ∨
    ∃ w cur rest, s.calls w = .opened cur rest i

def State.Sound (s : State) : Prop := ∀ i c, s.children[i]? = some c → s.Accounted i c

theorem State.Sound.frame {s next : State} (sound : s.Sound) (children : next.children = s.children)
    (live : s.phase = .live → next.phase = .live ∧ next.childRelays = s.childRelays) (calls : next.calls = s.calls) :
    next.Sound := by
  intro i c found
  rw [children] at found
  rcases sound i c found with gone | kicked | ⟨before,recorded⟩ | held
  · exact Or.inl gone
  · exact Or.inr (Or.inl kicked)
  · obtain ⟨after,same⟩ := live before
    rw [← same] at recorded
    exact Or.inr (Or.inr (Or.inl ⟨after,recorded⟩))
  · rw [← calls] at held
    exact Or.inr (Or.inr (Or.inr held))

theorem State.Sound.setCall {s : State} (sound : s.Sound) (worker : Nat) (call : Call)
    (placed : ∀ cur rest i c, s.calls worker = .opened cur rest i → s.children[i]? = some c →
      c.tornDown = true ∨ (s.phase = .live ∧ i ∈ s.childRelays)) : (s.setCall worker call).Sound := by
  intro i c found
  rcases sound i c found with gone | kicked | recorded | ⟨w,cur,rest,held⟩
  · exact Or.inl gone
  · exact Or.inr (Or.inl kicked)
  · exact Or.inr (Or.inr (Or.inl recorded))
  · by_cases same : w = worker
    · subst same
      rcases placed cur rest i c held found with gone | recorded
      · exact Or.inl gone
      · exact Or.inr (Or.inr (Or.inl recorded))
    · refine Or.inr (Or.inr (Or.inr ⟨w,cur,rest,?_⟩))
      unfold State.setCall
      dsimp only
      rw [Function.update_of_ne same]
      exact held

theorem State.Sound.moveOn {s : State} (sound : s.Sound) {worker : Nat} {now : Call} (here : s.calls worker = now)
    (empty : ∀ cur rest i, now ≠ .opened cur rest i) (call : Call) : (s.setCall worker call).Sound := by
  apply sound.setCall worker call
  intro cur rest i _ held
  exact absurd (here.symm.trans held) (empty cur rest i)

def State.SoundBut (s : State) (child : Nat) : Prop := ∀ i c, i ≠ child → s.children[i]? = some c → s.Accounted i c

theorem State.Sound.but {s : State} (sound : s.Sound) (child : Nat) : s.SoundBut child := fun i c _ => sound i c

theorem State.SoundBut.modify {s : State} {child : Nat} (others : s.SoundBut child) (change : Child → Child)
    (own : ∀ c, s.children[child]? = some c → s.Accounted child (change c)) :
    State.Sound {s with children := s.children.modify child change} := by
  intro i c found
  dsimp only at found
  rw [List.getElem?_modify] at found
  obtain ⟨before,was,rfl⟩ := Option.map_eq_some_iff.mp found
  split
  · rename_i same
    subst same
    exact own before was
  · rename_i other
    exact others i before (Ne.symm other) was

theorem State.SoundBut.tearDown {s : State} {child : Nat} (others : s.SoundBut child) : (s.tearDownChild child).Sound :=
  others.modify _ fun _ _ => Or.inl rfl

theorem State.Sound.hand {s : State} (sound : s.Sound) (child : Nat) : (s.hand child).Sound :=
  (sound.but child).modify _ (sound child)

theorem State.record_recorded (s : State) (child : Nat) : child ∈ (s.record child).childRelays :=
  List.mem_append_right _ (List.mem_singleton_self _)

theorem State.SoundBut.record {s : State} {child : Nat} (others : s.SoundBut child) (live : s.phase = .live) :
    (s.record child).Sound := by
  have listed : State.SoundBut {s with childRelays :=
      (s.childRelays.filter fun i => s.children[i]?.any fun c => !c.tornDown) ++ [child]} child := by
    intro i c other found
    rcases others i c other found with gone | kicked | ⟨_,recorded⟩ | held
    · exact Or.inl gone
    · exact Or.inr (Or.inl kicked)
    · cases torn : c.tornDown with
      | true => exact Or.inl torn
      | false =>
        refine Or.inr (Or.inr (Or.inl ⟨live,List.mem_append_left _ (List.mem_filter.mpr ⟨recorded,?_⟩)⟩))
        change s.children[i]? = some c at found
        rw [found,Option.any_some,torn]
        rfl
    · exact Or.inr (Or.inr (Or.inr held))
  exact listed.modify _ fun c _ => Or.inr (Or.inr (Or.inl ⟨live,s.record_recorded child⟩))

theorem State.Sound.create_but {s : State} (sound : s.Sound) (url : Text) (opens : Bool) :
    (s.create url opens).SoundBut s.children.length := by
  intro i c other found
  unfold State.create at found
  dsimp only at found
  rw [List.getElem?_append] at found
  split at found
  · exact sound i c found
  · obtain ⟨bound,_⟩ := List.getElem?_eq_some_iff.mp found
    rw [List.length_singleton] at bound
    omega

theorem State.Sound.create {s : State} (sound : s.Sound) (url : Text) (opens : Bool)
    (held : opens = true → ∃ w cur rest, s.calls w = .opened cur rest s.children.length) : (s.create url opens).Sound := by
  intro i c found
  by_cases fresh : i = s.children.length
  · subst fresh
    cases opens with
    | true => exact Or.inr (Or.inr (Or.inr (held rfl)))
    | false =>
      left
      unfold State.create at found
      dsimp only at found
      rw [List.getElem?_concat_length] at found
      cases found
      rfl
  · exact sound.create_but url opens i c fresh found

theorem State.Sound.detach {s : State} (sound : s.Sound) : State.Sound {s.detachChildRelays with phase := .detached} := by
  intro i c found
  change (s.children.mapIdx _)[i]? = some c at found
  rw [List.getElem?_mapIdx] at found
  obtain ⟨before,was,rfl⟩ := Option.map_eq_some_iff.mp found
  split
  · exact Or.inr (Or.inl rfl)
  · rename_i spared
    rcases sound i before was with gone | kicked | ⟨_,recorded⟩ | held
    · exact Or.inl gone
    · exact Or.inr (Or.inl kicked)
    · left
      by_contra running
      exact spared ⟨recorded,eq_false_of_ne_true running⟩
    · exact Or.inr (Or.inr (Or.inr held))

theorem State.Sound.connect {s : State} (sound : s.Sound) (m : Manager) (live : s.phase = .live) (url : Text) (opens : Bool)
    (now : Int) : (m.connect s url opens now).Sound := by
  unfold Manager.connect
  dsimp only
  split
  · rename_i failed
    have made : (s.create url opens).Sound := sound.create url opens fun opened => absurd failed (by rw [opened]; decide)
    exact made.frame rfl (fun live => ⟨live,rfl⟩) rfl
  · split
    · have recorded : ((s.create url opens).record s.children.length).Sound := (sound.create_but url opens).record live
      exact recorded.hand _
    · have gone : ((s.create url opens).tearDownChild s.children.length).Sound := (sound.create_but url opens).tearDown
      exact gone.frame rfl (fun live => ⟨live,rfl⟩) rfl

theorem State.Sound.visit {s : State} (sound : s.Sound) (m : Manager) {worker : Nat} {noPublisher : Bool} {cur : Int}
    {entry : Text × Int} {rest : ReconnectMap} (looping : s.calls worker = .looping noPublisher cur (entry::rest)) (opens : Bool) :
    (m.visit s worker noPublisher cur entry rest opens).Sound := by
  have moved : ∀ call, (s.setCall worker call).Sound := sound.moveOn looping fun _ _ _ clash => by cases clash
  unfold Manager.visit
  split
  · exact moved _
  · split
    · exact (moved _).frame rfl (fun live => ⟨live,rfl⟩) rfl
    · dsimp only
      split
      · apply (moved (.opened cur rest s.children.length)).create entry.1 opens
        intro _
        exact ⟨worker,cur,rest,Function.update_self ..⟩
      · rename_i failed
        have made := (moved (.looping noPublisher cur rest)).create entry.1 opens fun opened => absurd opened failed
        exact made.frame rfl (fun live => ⟨live,rfl⟩) rfl

theorem State.Sound.setRelayParam {s : State} (sound : s.Sound) (m : Manager) {worker : Nat} {cur : Int} {rest : ReconnectMap}
    {child : Nat} (opened : s.calls worker = .opened cur rest child) (live : m.fits = true → s.phase = .live) :
    (m.setRelayParam s worker cur rest child).Sound := by
  unfold Manager.setRelayParam
  split
  · rename_i fits
    apply ((sound.but child).record (live fits)).setCall
    intro _ _ i _ held _
    cases opened.symm.trans held
    exact Or.inr ⟨live fits,s.record_recorded child⟩
  · have gone : (s.tearDownChild child).Sound := (sound.but child).tearDown
    have moved : ((s.tearDownChild child).setCall worker (.looping false cur rest)).Sound := by
      apply gone.setCall
      intro _ _ i c held found
      cases opened.symm.trans held
      left
      change (s.children.modify child _)[child]? = some c at found
      rw [List.getElem?_modify_eq] at found
      obtain ⟨before,_,rfl⟩ := Option.map_eq_some_iff.mp found
      rfl
    exact moved.frame rfl (fun live => ⟨live,rfl⟩) rfl

theorem State.Sound.push {s : State} (sound : s.Sound) {worker : Nat} {cur : Int} {rest : ReconnectMap} {child : Nat}
    (recorded : s.calls worker = .recorded cur rest child) : (s.push worker cur rest child).Sound := by
  have handed : (s.hand child).Sound := sound.hand child
  have moved : ((s.hand child).setCall worker (.looping false cur rest)).Sound :=
    handed.moveOn recorded (fun _ _ _ clash => by cases clash) _
  exact moved.frame rfl (fun live => ⟨live,rfl⟩) rfl

theorem State.Sound.uninitChild {s : State} (sound : s.Sound) (child : Nat) (c : Child) (now : Int) :
    (s.uninitChild child c now).Sound := by
  have gone : (s.tearDownChild child).Sound := (sound.but child).tearDown
  unfold State.uninitChild
  split
  · exact gone.frame rfl (fun live => ⟨live,rfl⟩) rfl
  · exact gone

theorem Manager.keeps_sound (m : Manager) : m.machine.Keeps m.RecordsInTime State.Sound := by
  intro s label next sound timely stepped
  cases label with
  | connect url opens now =>
    obtain ⟨⟨live,_⟩,same⟩ := Option.ite_none_right_eq_some.mp stepped
    cases same
    exact sound.connect m live url opens now
  | pin w =>
    obtain ⟨⟨idle,_⟩,same⟩ := Option.ite_none_right_eq_some.mp stepped
    cases same
    exact (sound.moveOn idle (fun _ _ _ clash => by cases clash) .pinned).frame rfl (fun live => ⟨live,rfl⟩) rfl
  | look w =>
    obtain ⟨pinned,stepped⟩ := Option.ite_none_right_eq_some.mp stepped
    have moved : ∀ call, (s.setCall w call).Sound := sound.moveOn pinned fun _ _ _ clash => by cases clash
    split at stepped
    · cases stepped
      exact (moved .idle).frame rfl (fun live => ⟨live,rfl⟩) rfl
    · cases stepped
      exact moved _
  | enter w cur =>
    simp only [Manager.machine,Manager.step] at stepped
    split at stepped
    · rename_i noPublisher looked _
      cases stepped
      exact (sound.moveOn looked (fun _ _ _ clash => by cases clash) (.looping noPublisher cur s.reconnectRelay)).frame rfl
        (fun live => ⟨live,rfl⟩) rfl
    · cases stepped
  | visit w opens =>
    simp only [Manager.machine,Manager.step] at stepped
    split at stepped
    · rename_i looping
      cases stepped
      exact sound.visit m looping opens
    · cases stepped
  | record w =>
    simp only [Manager.machine,Manager.step] at stepped
    split at stepped
    · rename_i opened
      cases stepped
      exact sound.setRelayParam m opened timely
    · cases stepped
  | push w =>
    simp only [Manager.machine,Manager.step] at stepped
    split at stepped
    · rename_i recorded
      cases stepped
      exact sound.push recorded
    · cases stepped
  | leave w =>
    simp only [Manager.machine,Manager.step] at stepped
    split at stepped
    · rename_i looping
      cases stepped
      exact (sound.moveOn looping (fun _ _ _ clash => by cases clash) .idle).frame rfl (fun live => ⟨live,rfl⟩) rfl
    · cases stepped
  | tearDown child now =>
    obtain ⟨c,_,stepped⟩ := Option.bind_eq_some_iff.mp stepped
    obtain ⟨_,same⟩ := Option.ite_none_right_eq_some.mp stepped
    cases same
    exact sound.uninitChild child c now
  | detach =>
    obtain ⟨_,same⟩ := Option.ite_none_right_eq_some.mp stepped
    cases same
    exact sound.detach
  | removeRing =>
    obtain ⟨detached,same⟩ := Option.ite_none_right_eq_some.mp stepped
    cases same
    exact sound.frame rfl (fun live => by rw [detached] at live; cases live) rfl
  | unregister =>
    obtain ⟨removed,same⟩ := Option.ite_none_right_eq_some.mp stepped
    cases same
    exact sound.frame rfl (fun live => by rw [removed] at live; cases live) rfl
  | release =>
    obtain ⟨gone,same⟩ := Option.ite_none_right_eq_some.mp stepped
    cases same
    exact sound.frame rfl (fun live => by rw [gone] at live; cases live) rfl
  | laterPublisher joins =>
    simp only [Manager.machine,Manager.step] at stepped
    split at stepped
    · cases stepped
      exact sound.frame rfl (fun live => ⟨live,rfl⟩) rfl
    · cases stepped
      exact sound.frame rfl (fun live => ⟨live,rfl⟩) rfl
    · cases stepped

def Label.worker : Label → Option Nat
  | .pin w | .look w | .enter w _ | .visit w _ | .record w | .push w | .leave w => some w
  | _ => none

theorem Manager.step_calls (m : Manager) {s next : State} {label : Label} {w : Nat} (other : label.worker ≠ some w)
    (stepped : m.step s label = some next) : next.calls w = s.calls w := by
  have moved : ∀ {worker : Nat} (_ : some worker ≠ some w) (before : State) (call : Call),
      (before.setCall worker call).calls w = before.calls w := by
    intro worker apart before call
    exact Function.update_of_ne (fun same => apart (congrArg some same.symm)) _ _
  cases label with
  | connect url opens now =>
    obtain ⟨_,same⟩ := Option.ite_none_right_eq_some.mp stepped
    cases same
    unfold Manager.connect
    dsimp only
    split
    · rfl
    · split <;> rfl
  | pin worker =>
    obtain ⟨_,same⟩ := Option.ite_none_right_eq_some.mp stepped
    cases same
    exact moved other s .pinned
  | look worker =>
    obtain ⟨_,stepped⟩ := Option.ite_none_right_eq_some.mp stepped
    split at stepped
    · cases stepped
      exact moved other s .idle
    · cases stepped
      exact moved other s _
  | enter worker cur =>
    simp only [Manager.step] at stepped
    split at stepped
    · cases stepped
      exact moved other s _
    · cases stepped
  | visit worker opens =>
    simp only [Manager.step] at stepped
    split at stepped
    · cases stepped
      unfold Manager.visit
      dsimp only
      split
      · exact moved other s _
      · split
        · exact moved other s _
        · split
          · exact moved other (s.create _ opens) _
          · exact moved other (s.create _ opens) _
    · cases stepped
  | record worker =>
    simp only [Manager.step] at stepped
    split at stepped
    · cases stepped
      unfold Manager.setRelayParam
      split
      · exact moved other (s.record _) _
      · exact moved other (s.tearDownChild _) _
    · cases stepped
  | push worker =>
    simp only [Manager.step] at stepped
    split at stepped
    · cases stepped
      exact moved other (s.hand _) _
    · cases stepped
  | leave worker =>
    simp only [Manager.step] at stepped
    split at stepped
    · cases stepped
      exact moved other s .idle
    · cases stepped
  | tearDown child now =>
    obtain ⟨c,_,stepped⟩ := Option.bind_eq_some_iff.mp stepped
    obtain ⟨_,same⟩ := Option.ite_none_right_eq_some.mp stepped
    cases same
    unfold State.uninitChild
    split <;> rfl
  | detach | removeRing | unregister | release =>
    obtain ⟨_,same⟩ := Option.ite_none_right_eq_some.mp stepped
    cases same
    rfl
  | laterPublisher joins =>
    simp only [Manager.step] at stepped
    split at stepped <;> cases stepped <;> rfl

theorem Manager.keeps_idle (m : Manager) (worker : Nat) :
    m.machine.Keeps (fun _ label => label.worker = none ∨ label.worker = some worker)
      fun s => ∀ w, w ≠ worker → s.calls w = .idle := by
  intro s label next idle alone stepped w other
  have apart : label.worker ≠ some w := by
    intro same
    rcases alone with nobody | his
    · rw [nobody] at same
      cases same
    · rw [his] at same
      exact other (Option.some.inj same).symm
  rw [m.step_calls apart stepped]
  exact idle w other

theorem State.Sound.noOrphans {s : State} (sound : s.Sound) : s.NoOrphans := by
  intro returned idle c member
  obtain ⟨i,found⟩ := List.getElem?_of_mem member
  rcases sound i c found with gone | kicked | ⟨live,_⟩ | ⟨w,_,_,held⟩
  · exact Or.inl gone
  · exact Or.inr kicked
  · rw [returned] at live
    cases live
  · rw [idle w] at held
    cases held

/-- In every interleaving in which no child is recorded after the publisher has
detached the recorded ones, its end leaves no push leg running unasked. -/
theorem push_legs_end_with_publisher (m : Manager) (labels : List Label) (s : State)
    (admitted : m.machine.Admits m.RecordsInTime .start labels) (ran : m.machine.run .start labels = some s) :
    s.NoOrphans := by
  have start : State.start.Sound := fun _ _ found => by cases found
  exact (m.keeps_sound.run start admitted ran).noOrphans

instance (m : Manager) (s : State) : (label : Label) → Decidable (m.RecordsInTime s label)
  | .record _ => inferInstanceAs (Decidable (_ → _))
  | .connect _ _ _ | .pin _ | .look _ | .enter _ _ | .visit _ _ | .push _ | .leave _ | .tearDown _ _ => .isTrue trivial
  | .detach | .removeRing | .unregister | .release | .laterPublisher _ => .isTrue trivial

def liveManager : Manager := ⟨ascii "pub/live",ascii "cam",10⟩

def leg : Text := ascii "srt://192.0.2.9:9000?streamid=cam"

def reconnectedLeg : List Label :=
  [.connect leg true 0,.tearDown 0 1000,.pin 1,.look 1,.enter 1 12000,.visit 1 true,.record 1,.push 1,.leave 1]

def publisherUninit : List Label := [.detach,.removeRing,.unregister,.release]

theorem push_legs_end_with_publisher_reconnected :
    ∃ s, liveManager.machine.run .start (reconnectedLeg ++ publisherUninit) = some s ∧ s.phase = .returned ∧
      s.children = [⟨leg,true,true,false,true⟩,⟨leg,false,true,true,false⟩] ∧ s.NoOrphans := by
  have reached : (liveManager.machine.run .start (reconnectedLeg ++ publisherUninit)).map (fun s => (s.phase,s.children)) =
      some (.returned,[⟨leg,true,true,false,true⟩,⟨leg,false,true,true,false⟩]) := by
    decide +kernel
  obtain ⟨s,ran,same⟩ := Option.map_eq_some_iff.mp reached
  obtain ⟨returned,children⟩ := Prod.mk.inj same
  have timely : liveManager.machine.Admits liveManager.RecordsInTime .start (reconnectedLeg ++ publisherUninit) := by
    decide +kernel
  exact ⟨s,ran,returned,children,push_legs_end_with_publisher liveManager _ s timely ran⟩

/-- Worker 1 has found the publisher and opened the leg when the publisher ends. -/
def racedLeg : List Label :=
  [.connect leg true 0,.tearDown 0 1000,.pin 1,.look 1,.enter 1 12000,.visit 1 true] ++ publisherUninit ++
    [.record 1,.push 1,.leave 1]

/-- The leg is recorded with nobody left to kick it. -/
theorem leg_recorded_after_detach_runs_on :
    ¬ ∀ (m : Manager) (labels : List Label) (s : State), m.machine.run .start labels = some s → s.NoOrphans := by
  intro claim
  have reached : (liveManager.machine.run .start racedLeg).map (fun s => (s.phase,s.calls 1,s.children[1]?)) =
      some (.returned,.idle,some ⟨leg,true,true,false,false⟩) := by
    decide +kernel
  obtain ⟨s,ran,same⟩ := Option.map_eq_some_iff.mp reached
  obtain ⟨returned,same⟩ := Prod.mk.inj same
  obtain ⟨idle,found⟩ := Prod.mk.inj same
  have alone : liveManager.machine.Admits (fun _ label => label.worker = none ∨ label.worker = some 1) .start racedLeg := by
    decide +kernel
  have others := (liveManager.keeps_idle 1).run (fun _ _ => rfl) alone ran
  have calls : ∀ w, s.calls w = .idle := by
    intro w
    by_cases same : w = 1
    · subst same
      exact idle
    · exact others w same
  rcases claim _ _ s ran returned calls _ (List.mem_of_getElem? found) with gone | kicked
  · cases gone
  · cases kicked

end SrtLiveServer.PushTeardown
