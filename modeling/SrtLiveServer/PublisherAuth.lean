import SrtLiveServer.PublisherRole

/-! The accept path of publishers behind an `on_event_url`: listeners that hold
connections until the webhook has answered, the workers that read the published
ones, and the relays that share the stream maps. Every step is one call of one
thread, so webhook answers, clock changes and teardowns fall between any two. -/
namespace SrtLiveServer.PublisherAuth
open Bytes Transition

def maxPendingPublisherConnections : Nat := 1024

structure Offer where
  key : Text
  streamid : Text
  peerIp : Text
  peerPort : Nat
deriving DecidableEq

inductive Phase where
  | idle
  /-- `on_connect` returned; the first `check_http_passed` comes next. -/
  | asked (p : Nat)
  /-- In `finish_publisher_accept`, before the incumbent is looked up. -/
  | finishing (p : Nat)
  /-- In `finish_publisher_accept`, bound and about to enter the publisher map. -/
  | publishing (p : Nat)
deriving DecidableEq

structure Listener where
  running : Bool
  pending : List Nat
  phase : Phase

inductive Owner where
  | publisher (p : Nat)
  | relay
deriving DecidableEq

inductive RelayPhase where
  | idle
  /-- `set_relay_param` registered the puller; its ring is not added yet. -/
  | adding
  /-- The add was refused; the puller has still to leave the publisher map. -/
  | rollback
  | live (ringAdded : Bool)
deriving DecidableEq

/-- The pullers of one stream key: the phase of the registered one, and how many are in
`CSLSPuller::uninit`, out of the publisher map and with the ring still to remove. -/
structure Relays where
  phase : RelayPhase
  leaving : Nat

structure World where
  clock : Nat
  roles : List Role
  listeners : Nat → Listener
  publishers : Text → Option Owner
  rings : Text → Bool
  relays : Text → Relays
  log : List Event

def World.start : World where
  clock := 0
  roles := []
  listeners := fun _ => ⟨true,[],.idle⟩
  publishers := fun _ => none
  rings := fun _ => false
  relays := fun _ => ⟨.idle,0⟩
  log := []

/-- The map operations of a puller, each under the lock of its map. -/
inductive RelayAct where
  | setRelayParam
  /-- `room` is whether the caps allow a new ring. -/
  | addAtConnect (room : Bool)
  | undoRelayParam
  /-- A packet from the upstream server. -/
  | readData (room : Bool)
  | leaveMap
  | removeRing

inductive Label where
  | clock (now : Nat)
  /-- `CSLSListener::handler` up to `on_connect`, whose dispatch may throw. -/
  | accept (listener : Nat) (offer : Offer) (threw : Bool)
  /-- The rest of `CSLSListener::handler`. -/
  | settle (listener : Nat)
  /-- One entry of `drive_pending_publisher_connections`. -/
  | poll (listener p : Nat)
  | finish (listener : Nat) (protectedIncumbent : Bool)
  | publish (listener : Nat)
  | stopListener (listener : Nat)
  | complete (p : Nat) (response : AsyncHttpResponse)
  | requestKick (p : Nat)
  | adopt (p : Nat) (subscribed : Bool)
  | onWorkerTick (p : Nat)
  /-- A readable socket: `handler`, and `mark_invalid` if it fails. -/
  | readable (p : Nat) (received : Received) (room : Bool)
  /-- `check_invalid_sock`; `broken` is an idle or broken socket. -/
  | checkInvalidSock (p : Nat) (broken : Bool)
  | checkWaitHttpRole (p : Nat) (received : Received) (room : Bool)
  /-- The admission TTL of the role list, or a worker's shutdown. -/
  | drop (p : Nat)
  | relay (key : Text) (act : RelayAct)

def World.setRole (w : World) (p : Nat) (role : Role) (added : List Event) : World :=
  {w with roles := w.roles.set p role,log := w.log ++ added}

def World.setListener (w : World) (l : Nat) (listener : Listener) : World :=
  {w with listeners := Function.update w.listeners l listener}

def World.role (w : World) (p : Nat) (place : Place) : Option Role :=
  w.roles[p]?.filter fun role => role.place = place

/-- `CSLSPublisher::uninit`, after which `place` drives the role. A bound role
removes its ring unless another role owns the stream, and its map entry. -/
def World.uninit (w : World) (p : Nat) (role : Role) (place : Place) : World :=
  let owner := w.publishers role.key
  {w.setRole p {role.uninit with place := place} [] with
    rings :=
      if role.bound ∧ (owner = none ∨ owner = some (.publisher p)) then Function.update w.rings role.key false
      else w.rings
    publishers :=
      if role.bound then fun key => if w.publishers key = some (.publisher p) then none else w.publishers key
      else w.publishers}

def World.uninitAll (w : World) : List Nat → World
  | [] => w
  | p::rest => match w.roles[p]? with
    | some role => (w.uninit p role .dropped).uninitAll rest
    | none => w.uninitAll rest

def World.refuses (w : World) (httpUrlRole : Text) (listener : Listener) (key : Text) : Bool :=
  httpUrlRole ≠ [] && (maxPendingPublisherConnections ≤ listener.pending.length ||
    listener.pending.any fun p => w.roles[p]?.any fun role => role.key = key)

def World.accept (w : World) (onEventUrl : Text) (l : Nat) (offer : Offer) (threw : Bool) : World :=
  let httpUrlRole := strlcpy onEventUrl urlMaxLen
  if w.refuses httpUrlRole (w.listeners l) offer.key then w
  else
    let p := w.roles.length
    let role := (Role.accepted offer.key offer.streamid offer.peerIp offer.peerPort).setHttpUrl httpUrlRole
    match role.onConnect p threw w.clock with
    | none => {w with roles := w.roles ++ [{role.uninit with place := .dropped}]}
    | some (asked,added) =>
      {w.setListener l {w.listeners l with phase := .asked p} with roles := w.roles ++ [asked],log := w.log ++ added}

/-- The poll shared by `handler` and `drive_pending_publisher_connections`: `held`
is the pending list while the role waits on, `left` the one without it. -/
def World.poll (w : World) (l p : Nat) (role : Role) (held left : List Nat) : World :=
  let (check,checked) := role.checkHttpPassed w.clock
  let seen := w.setRole p checked (check.events p w.clock)
  let listener := w.listeners l
  if check.isOk then seen.setListener l {listener with pending := left,phase := .finishing p}
  else if checked.state = .invalid then
    (seen.uninit p checked .dropped).setListener l {listener with pending := left,phase := .idle}
  else seen.setListener l {listener with pending := held,phase := .idle}

def World.evict (w : World) (incumbent : Owner) (protectedIncumbent : Bool) : World :=
  match protectedIncumbent,incumbent with
  | false,.publisher q => match w.roles[q]? with
    | some role => w.setRole q {role with kickRequested := true} []
    | none => w
  | _,_ => w

def World.finish (w : World) (l p : Nat) (role : Role) (protectedIncumbent : Bool) : World :=
  match w.publishers role.key with
  | some incumbent =>
    let evicted := (w.evict incumbent protectedIncumbent).setListener l {w.listeners l with phase := .idle}
    match evicted.roles[p]? with
    | some role => evicted.uninit p role .dropped
    | none => evicted
  | none =>
    (w.setRole p {role with bound := true} []).setListener l {w.listeners l with phase := .publishing p}

def World.publish (w : World) (l p : Nat) (role : Role) : World :=
  let listener := {w.listeners l with phase := .idle}
  match w.publishers role.key with
  | some _ => (w.uninit p role .dropped).setListener l listener
  | none =>
    {(w.setRole p {role with place := .list} [.registered p]).setListener l listener with
      publishers := Function.update w.publishers role.key (some (.publisher p))}

/-- `CSLSPublisher::handler`; only the group's read loop acts on a failure. -/
def World.handler (w : World) (p : Nat) (role : Role) (received : Received) (room marks : Bool) : World :=
  let result := role.handlerReadData p w.clock received (w.rings role.key) room
  let after := if marks && !result.ok then result.role.markInvalid else result.role
  {w.setRole p after result.events with rings := Function.update w.rings role.key result.ring}

def World.checkInvalidSock (w : World) (p : Nat) (role : Role) (broken : Bool) : World :=
  let polled := if role.state ≠ .invalid ∧ (role.kickRequested ∨ broken) then role.markInvalid else role
  if polled.state = .inited then w.setRole p polled []
  else w.uninit p polled (if polled.uninit.httpFuture.isSome then .waitHttp else .dropped)

def World.setStream (w : World) (key : Text) (owner : Option Owner) (ring : Bool) (relays : Relays) : World :=
  {w with
    publishers := Function.update w.publishers key owner
    rings := Function.update w.rings key ring
    relays := Function.update w.relays key relays}

def World.relay (w : World) (key : Text) (act : RelayAct) : Option World :=
  let relays := w.relays key
  match act,w.publishers key,relays.phase with
  | .setRelayParam,none,_ => some (w.setStream key (some .relay) (w.rings key) {relays with phase := .adding})
  | .addAtConnect room,some .relay,.adding =>
    if w.rings key || room then some (w.setStream key (some .relay) true {relays with phase := .live false})
    else some (w.setStream key (some .relay) false {relays with phase := .rollback})
  | .undoRelayParam,some .relay,.rollback => some (w.setStream key none (w.rings key) {relays with phase := .idle})
  | .readData room,some .relay,.live added =>
    -- a ring that was added and is gone is not added again
    let ring := w.rings key || (!added && room)
    some (w.setStream key (some .relay) ring {relays with phase := .live (added || ring)})
  | .leaveMap,some .relay,.live _ => some (w.setStream key none (w.rings key) ⟨.idle,relays.leaving + 1⟩)
  | .removeRing,owner,_ =>
    -- whoever owns the stream by now
    if relays.leaving = 0 then none
    else some (w.setStream key owner false {relays with leaving := relays.leaving - 1})
  | _,_,_ => none

def World.step (onEventUrl : Text) (w : World) : Label → Option World
  | .clock now => some {w with clock := now}
  | .accept l offer threw =>
    if (w.listeners l).running ∧ (w.listeners l).phase = .idle then some (w.accept onEventUrl l offer threw) else none
  | .settle l => match (w.listeners l).phase with
    | .asked p => w.roles[p]?.map fun role =>
        w.poll l p role ((w.listeners l).pending ++ [p]) (w.listeners l).pending
    | _ => none
  | .poll l p =>
    if (w.listeners l).running ∧ (w.listeners l).phase = .idle ∧ p ∈ (w.listeners l).pending then
      w.roles[p]?.map fun role => w.poll l p role (w.listeners l).pending ((w.listeners l).pending.erase p)
    else none
  | .finish l protectedIncumbent => match (w.listeners l).phase with
    | .finishing p => w.roles[p]?.map fun role => w.finish l p role protectedIncumbent
    | _ => none
  | .publish l => match (w.listeners l).phase with
    | .publishing p => w.roles[p]?.map fun role => w.publish l p role
    | _ => none
  | .stopListener l =>
    if (w.listeners l).phase = .idle then
      some ((w.uninitAll (w.listeners l).pending).setListener l ⟨false,[],.idle⟩)
    else none
  | .complete p response => w.roles[p]?.bind fun role => match role.httpFuture with
    | some ⟨event,none⟩ =>
      some (w.setRole p {role with httpFuture := some ⟨event,some response⟩} [.completed p event response])
    | _ => none
  | .requestKick p => w.roles[p]?.map fun role => w.setRole p {role with kickRequested := true} []
  | .adopt p subscribed => (w.role p .list).map fun role =>
      if role.srt && subscribed then w.setRole p {role with place := .worker} [] else w.uninit p role .dropped
  | .onWorkerTick p => (w.role p .worker).map fun role =>
      let (check,checked) := role.checkHttpPassed w.clock
      w.setRole p checked (check.events p w.clock)
  | .readable p received room => (w.role p .worker).map fun role => w.handler p role received room true
  | .checkInvalidSock p broken => (w.role p .worker).map fun role => w.checkInvalidSock p role broken
  | .checkWaitHttpRole p received room => (w.role p .waitHttp).map fun role =>
      if role.httpFuture.isSome then w.handler p role received room false else w.uninit p role .dropped
  | .drop p => w.roles[p]?.bind fun role =>
      if role.place = .listener then none else some (w.uninit p role .dropped)
  | .relay key act => w.relay key act

def server (onEventUrl : Text) : Machine World Label := ⟨World.step onEventUrl⟩

structure World.Sound (w : World) : Prop where
  roles : ∀ (p : Nat) (role : Role), w.roles[p]? = some role → role.Sound p w.log
  known : ∀ event ∈ w.log, event.subject < w.roles.length
  justified : Trace.Justified Justifies [] w.log
  registered : ∀ key p, w.publishers key = some (.publisher p) → .registered p ∈ w.log
  admitted : ∀ l p, (w.listeners l).phase = .finishing p ∨ (w.listeners l).phase = .publishing p →
    ∃ role, w.roles[p]? = some role ∧ role.httpPassed = true

theorem World.start_sound : World.start.Sound where
  roles := fun _ _ found => by simp [World.start] at found
  known := fun _ member => by simp [World.start] at member
  justified := trivial
  registered := fun _ _ found => by simp [World.start] at found
  admitted := fun _ _ phase => by simp [World.start] at phase

theorem World.Sound.setRole {w : World} (sound : w.Sound) {p : Nat} {role next : Role} {added : List Event}
    (found : w.roles[p]? = some role) (advance : role.Advance p w.log next added) :
    (w.setRole p next added).Sound := by
  obtain ⟨bound,_⟩ := List.getElem?_eq_some_iff.mp found
  have mine : (w.roles.set p next)[p]? = some next := List.getElem?_set_self bound
  have other : ∀ q, q ≠ p → (w.roles.set p next)[q]? = w.roles[q]? :=
    fun q different => List.getElem?_set_ne (Ne.symm different)
  constructor
  · intro q holder
    change (w.roles.set p next)[q]? = some holder → _
    intro entry
    by_cases same : q = p
    · subst q
      rw [mine] at entry
      cases entry
      exact advance.sound
    · rw [other q same] at entry
      refine (sound.roles q holder entry).frame ?_
      intro event member subject
      exact same (subject ▸ advance.mine event member)
  · intro event member
    change event.subject < (w.roles.set p next).length
    rw [List.length_set]
    rcases List.mem_append.mp member with earlier | later
    · exact sound.known event earlier
    · rw [advance.mine event later]
      exact bound
  · exact sound.justified.append advance.justified
  · intro key q entry
    exact List.mem_append_left _ (sound.registered key q entry)
  · intro l q phase
    obtain ⟨holder,entry,opened⟩ := sound.admitted l q phase
    by_cases same : q = p
    · subst q
      rw [found] at entry
      cases entry
      exact ⟨next,mine,advance.stays opened⟩
    · exact ⟨holder,(other q same).trans entry,opened⟩

theorem World.Sound.setListener {w : World} (sound : w.Sound) (l : Nat) (listener : Listener)
    (opened : ∀ p, listener.phase = .finishing p ∨ listener.phase = .publishing p →
      ∃ role, w.roles[p]? = some role ∧ role.httpPassed = true) : (w.setListener l listener).Sound := by
  refine ⟨sound.roles,sound.known,sound.justified,sound.registered,?_⟩
  intro k p phase
  by_cases same : k = l
  · subst k
    simp only [World.setListener,Function.update_self] at phase
    exact opened p phase
  · simp only [World.setListener,Function.update_of_ne same] at phase
    exact sound.admitted k p phase

theorem World.Sound.park {w : World} (sound : w.Sound) (l : Nat) (listener : Listener)
    (parked : ∀ p, listener.phase ≠ .finishing p ∧ listener.phase ≠ .publishing p) :
    (w.setListener l listener).Sound := by
  refine sound.setListener l listener ?_
  rintro p (finishing | publishing)
  · exact absurd finishing (parked p).1
  · exact absurd publishing (parked p).2

theorem World.Sound.shrink {w : World} (sound : w.Sound) (publishers : Text → Option Owner) (rings : Text → Bool)
    (fewer : ∀ key p, publishers key = some (.publisher p) → w.publishers key = some (.publisher p)) :
    World.Sound {w with publishers := publishers,rings := rings} :=
  ⟨sound.roles,sound.known,sound.justified,fun key p entry => sound.registered key p (fewer key p entry),
    sound.admitted⟩

/-- A relay touches the maps of its stream, and no publisher's entry. -/
theorem World.relay_cases {w later : World} {key : Text} {act : RelayAct} (stepped : w.relay key act = some later) :
    ∃ owner ring relays, later = w.setStream key owner ring relays ∧
      ∀ p, owner = some (.publisher p) ↔ w.publishers key = some (.publisher p) := by
  simp only [World.relay] at stepped
  split at stepped
  · rename_i _ nobody
    exact ⟨_,_,_,(Option.some.inj stepped).symm,fun p => by simp [nobody]⟩
  · rename_i relayed _
    split at stepped <;> exact ⟨_,_,_,(Option.some.inj stepped).symm,fun p => by simp [relayed]⟩
  · rename_i relayed _
    exact ⟨_,_,_,(Option.some.inj stepped).symm,fun p => by simp [relayed]⟩
  · rename_i relayed _
    exact ⟨_,_,_,(Option.some.inj stepped).symm,fun p => by simp [relayed]⟩
  · rename_i relayed _
    exact ⟨_,_,_,(Option.some.inj stepped).symm,fun p => by simp [relayed]⟩
  · split at stepped
    · cases stepped
    · exact ⟨_,_,_,(Option.some.inj stepped).symm,fun _ => Iff.rfl⟩
  · cases stepped

theorem World.Sound.relay {w later : World} (sound : w.Sound) {key : Text} {act : RelayAct}
    (stepped : w.relay key act = some later) : later.Sound := by
  obtain ⟨owner,ring,relays,rfl,strangers⟩ := World.relay_cases stepped
  refine ⟨sound.roles,sound.known,sound.justified,?_,sound.admitted⟩
  intro other p entry
  change Function.update w.publishers key owner other = some (.publisher p) at entry
  by_cases same : other = key
  · subst other
    rw [Function.update_self] at entry
    exact sound.registered key p ((strangers p).mp entry)
  · rw [Function.update_of_ne same] at entry
    exact sound.registered other p entry

theorem World.Sound.quiet {w : World} (sound : w.Sound) {p : Nat} {role next : Role} (found : w.roles[p]? = some role)
    (quiet : role.Quiet next) : (w.setRole p next []).Sound :=
  sound.setRole found ((sound.roles p role found).advance quiet)

theorem Role.Quiet.move {role next : Role} (quiet : role.Quiet next) (place : Place) :
    role.Quiet {next with place := place} := ⟨quiet.passed,quiet.ring,quiet.future⟩

theorem World.Sound.uninit {w : World} (sound : w.Sound) {p : Nat} {role last : Role} (found : w.roles[p]? = some role)
    (quiet : role.Quiet last) (place : Place) : (w.uninit p last place).Sound := by
  have dropped := sound.quiet found ((quiet.trans (Role.uninit_quiet last)).move place)
  refine dropped.shrink _ _ ?_
  intro key q entry
  split at entry
  · dsimp only at entry
    split at entry
    · cases entry
    · exact entry
  · exact entry

theorem World.Sound.uninitAll {w : World} (sound : w.Sound) (pending : List Nat) : (w.uninitAll pending).Sound := by
  induction pending generalizing w with
  | nil => exact sound
  | cons p rest ih =>
    unfold World.uninitAll
    split
    · rename_i role found
      exact ih (sound.uninit found (Role.Quiet.refl role) .dropped)
    · exact ih sound

theorem World.roles_setRole (w : World) {p : Nat} {role : Role} (found : w.roles[p]? = some role) (next : Role)
    (added : List Event) : (w.setRole p next added).roles[p]? = some next := by
  obtain ⟨bound,_⟩ := List.getElem?_eq_some_iff.mp found
  exact List.getElem?_set_self bound

theorem World.Sound.opened {w : World} (sound : w.Sound) {l p : Nat} {role : Role}
    (phase : (w.listeners l).phase = .finishing p ∨ (w.listeners l).phase = .publishing p)
    (found : w.roles[p]? = some role) : role.httpPassed = true := by
  obtain ⟨holder,entry,opened⟩ := sound.admitted l p phase
  rw [found] at entry
  cases entry
  exact opened

theorem World.Sound.poll {w : World} (sound : w.Sound) (l p : Nat) {role : Role} (found : w.roles[p]? = some role)
    (held left : List Nat) : (w.poll l p role held left).Sound := by
  have seen := sound.setRole found ((sound.roles p role found).checkHttpPassed w.clock)
  have there := w.roles_setRole found (role.checkHttpPassed w.clock).2 ((role.checkHttpPassed w.clock).1.events p w.clock)
  unfold World.poll
  dsimp only
  split
  · rename_i ok
    refine seen.setListener l _ ?_
    rintro q (finishing | impossible)
    · cases finishing
      exact ⟨_,there,Role.checkHttpPassed_isOk role w.clock ok⟩
    · cases impossible
  split
  · exact (seen.uninit there (Role.Quiet.refl _) .dropped).park l _ (by simp)
  · exact seen.park l _ (by simp)

theorem World.Sound.evict {w : World} (sound : w.Sound) (incumbent : Owner) (protectedIncumbent : Bool) :
    (w.evict incumbent protectedIncumbent).Sound := by
  unfold World.evict
  split
  · split
    · rename_i found
      exact sound.quiet found ⟨rfl,rfl,fun _ => Or.inr ⟨rfl,rfl⟩⟩
    · exact sound
  · exact sound

theorem World.Sound.finish {w : World} (sound : w.Sound) (l p : Nat) {role : Role} (found : w.roles[p]? = some role)
    (finishing : (w.listeners l).phase = .finishing p) (protectedIncumbent : Bool) :
    (w.finish l p role protectedIncumbent).Sound := by
  have opened := sound.opened (Or.inl finishing) found
  unfold World.finish
  split
  · rename_i incumbent _
    have evicted : ((w.evict incumbent protectedIncumbent).setListener l {w.listeners l with phase := .idle}).Sound :=
      (sound.evict incumbent protectedIncumbent).park l _ (by simp)
    dsimp only
    split
    · rename_i found
      exact evicted.uninit found (Role.Quiet.refl _) .dropped
    · exact evicted
  · have bound : role.Quiet {role with bound := true} := ⟨rfl,rfl,fun _ => Or.inr ⟨rfl,rfl⟩⟩
    refine (sound.quiet found bound).setListener l _ ?_
    rintro q (impossible | publishing)
    · cases impossible
    · cases publishing
      exact ⟨_,w.roles_setRole found _ _,opened⟩

theorem World.Sound.publish {w : World} (sound : w.Sound) (l p : Nat) {role : Role} (found : w.roles[p]? = some role)
    (publishing : (w.listeners l).phase = .publishing p) : (w.publish l p role).Sound := by
  have opened := sound.opened (Or.inr publishing) found
  unfold World.publish
  dsimp only
  split
  · exact (sound.uninit found (Role.Quiet.refl role) .dropped).park l _ (by simp)
  · have listed := (sound.roles p role found).advance ((Role.Quiet.refl role).move .list)
    have entered := sound.setRole found (listed.admits opened (Or.inl rfl))
    have moved := entered.park l {w.listeners l with phase := .idle} (by simp)
    refine ⟨moved.roles,moved.known,moved.justified,?_,moved.admitted⟩
    intro key q entry
    change Function.update w.publishers role.key (some (.publisher p)) key = some (.publisher q) at entry
    by_cases same : key = role.key
    · subst key
      rw [Function.update_self] at entry
      cases entry
      exact List.mem_append_right _ (List.mem_singleton.mpr rfl)
    · rw [Function.update_of_ne same] at entry
      exact moved.registered key q entry

theorem World.Sound.handler {w : World} (sound : w.Sound) (p : Nat) {role : Role} (found : w.roles[p]? = some role)
    (received : Received) (room marks : Bool) : (w.handler p role received room marks).Sound := by
  have advance := (sound.roles p role found).handlerReadData w.clock received (w.rings role.key) room
  unfold World.handler
  generalize role.handlerReadData p w.clock received (w.rings role.key) room = result at advance ⊢
  have read : role.Advance p w.log (if marks && !result.ok then result.role.markInvalid else result.role)
      result.events := by
    split
    · exact advance.quiet (Role.markInvalid_quiet _)
    · exact advance
  exact (sound.setRole found read).shrink _ _ fun _ _ entry => entry

theorem World.Sound.checkInvalidSock {w : World} (sound : w.Sound) (p : Nat) {role : Role}
    (found : w.roles[p]? = some role) (broken : Bool) : (w.checkInvalidSock p role broken).Sound := by
  have polled : role.Quiet
      (if role.state ≠ .invalid ∧ (role.kickRequested ∨ broken) then role.markInvalid else role) := by
    split
    · exact Role.markInvalid_quiet role
    · exact Role.Quiet.refl role
  unfold World.checkInvalidSock
  generalize (if role.state ≠ .invalid ∧ (role.kickRequested ∨ broken) then role.markInvalid else role) = last
    at polled ⊢
  dsimp only
  split
  · exact sound.quiet found polled
  · exact sound.uninit found polled _

theorem World.Sound.addRole {w : World} (sound : w.Sound) (role : Role) (added : List Event)
    (mine : ∀ event ∈ added, event.subject = w.roles.length) (justified : Trace.Justified Justifies w.log added)
    (fresh : role.Sound w.roles.length (w.log ++ added)) :
    World.Sound {w with roles := w.roles ++ [role],log := w.log ++ added} := by
  have old : ∀ (q : Nat) holder, (w.roles ++ [role])[q]? = some holder →
      w.roles[q]? = some holder ∨ q = w.roles.length ∧ holder = role := by
    intro q holder entry
    rcases Nat.lt_or_ge q w.roles.length with inside | outside
    · rw [List.getElem?_append_left inside] at entry
      exact Or.inl entry
    · obtain ⟨bound,_⟩ := List.getElem?_eq_some_iff.mp entry
      rw [List.length_append,List.length_singleton] at bound
      have last : q = w.roles.length := by omega
      subst q
      simp at entry
      exact Or.inr ⟨rfl,entry.symm⟩
  constructor
  · intro q holder entry
    rcases old q holder entry with before | ⟨rfl,rfl⟩
    · refine (sound.roles q holder before).frame ?_
      intro event member subject
      obtain ⟨bound,_⟩ := List.getElem?_eq_some_iff.mp before
      rw [← subject,mine event member] at bound
      exact Nat.lt_irrefl _ bound
    · exact fresh
  · intro event member
    rw [List.length_append]
    rcases List.mem_append.mp member with earlier | later
    · exact Nat.lt_add_right _ (sound.known event earlier)
    · rw [mine event later]
      exact Nat.lt_add_one _
  · exact sound.justified.append justified
  · intro key q entry
    exact List.mem_append_left _ (sound.registered key q entry)
  · intro l q phase
    obtain ⟨holder,entry,opened⟩ := sound.admitted l q phase
    obtain ⟨bound,_⟩ := List.getElem?_eq_some_iff.mp entry
    exact ⟨holder,(List.getElem?_append_left bound).trans entry,opened⟩

theorem strlcpy_urlMaxLen_ne (url : Text) (gated : url ≠ []) : strlcpy url urlMaxLen ≠ [] := by
  cases url with
  | nil => exact absurd rfl gated
  | cons first rest => simp [strlcpy,urlMaxLen]

theorem Role.accepted_gated (key streamid peerIp : Text) (peerPort : Nat) {url : Text} (gated : url ≠ []) :
    ((Role.accepted key streamid peerIp peerPort).setHttpUrl url).httpPassed = false ∧
      ((Role.accepted key streamid peerIp peerPort).setHttpUrl url).httpUrl ≠ [] ∧
      ((Role.accepted key streamid peerIp peerPort).setHttpUrl url).ringAdded = false ∧
      ((Role.accepted key streamid peerIp peerPort).setHttpUrl url).httpFuture = none := by
  rw [Role.setHttpUrl,if_neg gated]
  exact ⟨rfl,strlcpy_urlMaxLen_ne url gated,rfl,rfl⟩

theorem Role.onConnect_sound {p now : Nat} {threw : Bool} {log added : List Event} {role asked : Role}
    (shut : role.httpPassed = false) (gated : role.httpUrl ≠ []) (noRing : role.ringAdded = false)
    (fresh : ∀ event ∈ log, event.subject ≠ p) (connected : role.onConnect p threw now = some (asked,added)) :
    (∀ event ∈ added, event.subject = p) ∧ Trace.Justified Justifies log added ∧ asked.Sound p (log ++ added) := by
  unfold Role.onConnect at connected
  rw [if_neg gated] at connected
  split at connected
  · cases connected
  · cases connected
    have member : .dispatched p (now + httpAuthorizationDeadlineMs) ∈
        log ++ [.dispatched p (now + httpAuthorizationDeadlineMs)] :=
      List.mem_append_right _ (List.mem_singleton.mpr rfl)
    refine ⟨List.forall_mem_singleton.mpr rfl,⟨trivial,trivial⟩,⟨?_,?_,?_⟩⟩
    · intro opened
      dsimp only at opened
      rw [shut] at opened
      cases opened
    · intro _ future requested
      cases requested
      have unmarked : .markedInvalid p ∉ log := fun marked => fresh _ marked rfl
      exact ⟨rfl,Nat.lt_of_lt_of_le (by decide) (Nat.le_add_left _ now),member,
        List.not_mem_append unmarked (by simp),fun _ none => by cases none⟩
    · intro present
      dsimp only at present
      rw [noRing] at present
      cases present

theorem World.Sound.accept {w : World} (sound : w.Sound) (onEventUrl : Text) (gated : onEventUrl ≠ []) (l : Nat)
    (offer : Offer) (threw : Bool) : (w.accept onEventUrl l offer threw).Sound := by
  have fresh : ∀ event ∈ w.log, event.subject ≠ w.roles.length :=
    fun event member => Nat.ne_of_lt (sound.known event member)
  have nonempty := strlcpy_urlMaxLen_ne onEventUrl gated
  unfold World.accept
  dsimp only
  split
  · exact sound
  obtain ⟨shut,webhook,noRing,unasked⟩ :=
    Role.accepted_gated offer.key offer.streamid offer.peerIp offer.peerPort nonempty
  generalize (Role.accepted offer.key offer.streamid offer.peerIp offer.peerPort).setHttpUrl
    (strlcpy onEventUrl urlMaxLen) = role at shut webhook noRing unasked ⊢
  split
  · have quiet := (Role.uninit_quiet role).move .dropped
    have idle : role.Sound w.roles.length w.log := by
      refine ⟨?_,?_,?_⟩
      · rw [shut]
        exact fun impossible => by cases impossible
      · rw [unasked]
        exact fun _ _ impossible => by cases impossible
      · rw [noRing]
        exact fun impossible => by cases impossible
    have added := sound.addRole {role.uninit with place := .dropped} [] (fun _ none => by cases none) trivial
      (by
        rw [List.append_nil]
        exact idle.quiet quiet)
    rw [List.append_nil] at added
    exact added
  · rename_i asked added connected
    obtain ⟨mine,justified,sounds⟩ := Role.onConnect_sound shut webhook noRing fresh connected
    exact (sound.addRole asked added mine justified sounds).park l {w.listeners l with phase := .asked w.roles.length}
      (by simp)

theorem Role.Sound.complete {p : Nat} {log : List Event} {role : Role} (sound : role.Sound p log) (event : OnEvent)
    (requested : role.httpFuture = some ⟨event,none⟩) (response : AsyncHttpResponse) :
    role.Advance p log {role with httpFuture := some ⟨event,some response⟩} [.completed p event response] := by
  have unmarked : .markedInvalid p ∉ [Event.completed p event response] := by simp
  refine ⟨List.forall_mem_singleton.mpr rfl,⟨trivial,trivial⟩,⟨?_,?_,?_⟩,fun opened => opened⟩
  · intro opened
    obtain ⟨⟨deadline,now,passed⟩,absent⟩ := sound.opened opened
    exact ⟨⟨deadline,now,List.mem_append_left _ passed⟩,List.not_mem_append absent unmarked⟩
  · intro shut future answered
    obtain ⟨connect,due,dispatched,absent,_⟩ := sound.asked shut _ requested
    cases answered
    refine ⟨connect,due,List.mem_append_left _ dispatched,List.not_mem_append absent unmarked,?_⟩
    intro given ready
    cases ready
    have connect : event = .connect := connect
    rw [connect]
    exact List.mem_append_right _ (List.mem_singleton.mpr rfl)
  · exact fun added => List.mem_append_left _ (sound.ring added)

theorem World.role_some {w : World} {p : Nat} {place : Place} {role : Role} (held : w.role p place = some role) :
    w.roles[p]? = some role := by
  unfold World.role at held
  exact (Option.filter_eq_some_iff.mp held).1

theorem server_keeps (onEventUrl : Text) (gated : onEventUrl ≠ []) :
    (server onEventUrl).Keeps (fun _ _ => True) World.Sound := by
  intro w label next sound _ stepped
  change w.step onEventUrl label = some next at stepped
  cases label with
  | clock now =>
    cases stepped
    exact ⟨sound.roles,sound.known,sound.justified,sound.registered,sound.admitted⟩
  | accept l offer threw =>
    simp only [World.step] at stepped
    split at stepped <;> cases stepped
    exact sound.accept onEventUrl gated l offer threw
  | settle l =>
    simp only [World.step] at stepped
    split at stepped
    · obtain ⟨role,found,rfl⟩ := Option.map_eq_some_iff.mp stepped
      exact sound.poll l _ found _ _
    · cases stepped
  | poll l p =>
    simp only [World.step] at stepped
    split at stepped
    · obtain ⟨role,found,rfl⟩ := Option.map_eq_some_iff.mp stepped
      exact sound.poll l p found _ _
    · cases stepped
  | finish l protectedIncumbent =>
    simp only [World.step] at stepped
    split at stepped
    · rename_i p finishing
      obtain ⟨role,found,rfl⟩ := Option.map_eq_some_iff.mp stepped
      exact sound.finish l p found finishing protectedIncumbent
    · cases stepped
  | publish l =>
    simp only [World.step] at stepped
    split at stepped
    · rename_i p publishing
      obtain ⟨role,found,rfl⟩ := Option.map_eq_some_iff.mp stepped
      exact sound.publish l p found publishing
    · cases stepped
  | stopListener l =>
    simp only [World.step] at stepped
    split at stepped <;> cases stepped
    exact (sound.uninitAll _).park l _ (by simp)
  | complete p response =>
    simp only [World.step] at stepped
    obtain ⟨role,found,answered⟩ := Option.bind_eq_some_iff.mp stepped
    split at answered
    · rename_i event requested
      cases answered
      exact sound.setRole found ((sound.roles p role found).complete event requested response)
    · cases answered
  | requestKick p =>
    obtain ⟨role,found,rfl⟩ := Option.map_eq_some_iff.mp stepped
    exact sound.quiet found ⟨rfl,rfl,fun _ => Or.inr ⟨rfl,rfl⟩⟩
  | adopt p subscribed =>
    obtain ⟨role,held,rfl⟩ := Option.map_eq_some_iff.mp stepped
    have found := World.role_some held
    split
    · exact sound.quiet found ((Role.Quiet.refl role).move .worker)
    · exact sound.uninit found (Role.Quiet.refl role) .dropped
  | onWorkerTick p =>
    obtain ⟨role,held,rfl⟩ := Option.map_eq_some_iff.mp stepped
    have found := World.role_some held
    exact sound.setRole found ((sound.roles p role found).checkHttpPassed w.clock)
  | readable p received room =>
    obtain ⟨role,held,rfl⟩ := Option.map_eq_some_iff.mp stepped
    exact sound.handler p (World.role_some held) received room true
  | checkInvalidSock p broken =>
    obtain ⟨role,held,rfl⟩ := Option.map_eq_some_iff.mp stepped
    exact sound.checkInvalidSock p (World.role_some held) broken
  | checkWaitHttpRole p received room =>
    obtain ⟨role,held,rfl⟩ := Option.map_eq_some_iff.mp stepped
    have found := World.role_some held
    split
    · exact sound.handler p found received room false
    · exact sound.uninit found (Role.Quiet.refl role) .dropped
  | drop p =>
    obtain ⟨role,found,dropped⟩ := Option.bind_eq_some_iff.mp stepped
    split at dropped <;> cases dropped
    exact sound.uninit found (Role.Quiet.refl role) .dropped
  | relay key act => exact sound.relay stepped

/-- Publisher `p` was let in by its webhook: the `on_connect` request sent with
`deadline` completed with success and 200, and after that `check_http_passed`
saw it at `now`, before the deadline. -/
def AuthorizedIn (past : List Event) (p : Nat) : Prop :=
  ∃ earlier later deadline now, past = earlier ++ .passed p deadline now::later ∧ .dispatched p deadline ∈ earlier ∧
    .completed p .connect ⟨true,200⟩ ∈ earlier ∧ now < deadline

def Event.Admits (event : Event) (p : Nat) : Prop := event = .registered p ∨ event = .ringAdded p ∨ event = .put p

theorem World.Sound.authorized {w : World} (sound : w.Sound) {before after : List Event} {event : Event} {p : Nat}
    (split : w.log = before ++ event::after) (admits : event.Admits p) :
    AuthorizedIn before p ∧ .markedInvalid p ∉ before := by
  have justified := sound.justified
  rw [split] at justified
  have just : Justifies before event := justified.at
  have fine : (∃ deadline now, .passed p deadline now ∈ before) ∧ .markedInvalid p ∉ before := by
    rcases admits with rfl | rfl | rfl <;> exact just
  obtain ⟨⟨deadline,now,passed⟩,unmarked⟩ := fine
  obtain ⟨earlier,later,rfl⟩ := List.append_of_mem passed
  rw [List.append_assoc,List.cons_append] at justified
  obtain ⟨dispatched,completed,inTime⟩ : Justifies earlier (.passed p deadline now) := justified.at
  exact ⟨⟨earlier,later,deadline,now,rfl,dispatched,completed,inTime⟩,unmarked⟩

/-- In every run behind a webhook, whoever is in the publisher map or has a ring
was admitted, and each admission, of a map entry, a ring or a packet, comes
after an authorization in time and not after the role was marked invalid. -/
theorem publisher_gate_fails_closed (onEventUrl : Text) (gated : onEventUrl ≠ []) (labels : List Label) (w : World)
    (ran : (server onEventUrl).run World.start labels = some w) :
    (∀ key p, w.publishers key = some (.publisher p) → .registered p ∈ w.log) ∧
    (∀ p role, w.roles[p]? = some role → role.ringAdded = true → .ringAdded p ∈ w.log) ∧
    ∀ before event after p, w.log = before ++ event::after → event.Admits p →
      AuthorizedIn before p ∧ .markedInvalid p ∉ before := by
  have sound := (server_keeps onEventUrl gated).run_all World.start_sound ran
  exact ⟨sound.registered,fun p role found => (sound.roles p role found).ring,
    fun before event after p split admits => sound.authorized split admits⟩

def authorizedEncoder : List Label :=
  [.clock 1000,.accept 0 ⟨ascii "live/s",ascii "publish/live/s",ascii "10.0.0.1",5000⟩ false,.settle 0,
    .complete 0 ⟨true,200⟩,.clock 4999,.poll 0 0,.finish 0 false,.publish 0,.adopt 0 true,.readable 0 .packet true]

theorem publisher_gate_fails_closed_encoder :
    ∃ w, (server (ascii "http://auth/event")).run World.start authorizedEncoder = some w ∧
      w.log = [.dispatched 0 5000,.completed 0 .connect ⟨true,200⟩,.passed 0 5000 4999,.registered 0,.ringAdded 0,.put 0] ∧
      ∀ before event after p, w.log = before ++ event::after → event.Admits p →
        AuthorizedIn before p ∧ .markedInvalid p ∉ before := by
  have logged : ((server (ascii "http://auth/event")).run World.start authorizedEncoder).map World.log =
      some [.dispatched 0 5000,.completed 0 .connect ⟨true,200⟩,.passed 0 5000 4999,.registered 0,.ringAdded 0,.put 0] := by
    decide +kernel
  obtain ⟨w,ran,log⟩ := Option.map_eq_some_iff.mp logged
  exact ⟨w,ran,log,(publisher_gate_fails_closed (ascii "http://auth/event") (by decide) authorizedEncoder w ran).2.2⟩

section Granularity

/-- The owners of streams as the roles of one stream's maps. -/
def Owner.number : Owner → Nat
  | .relay => 0
  | .publisher p => p + 1

theorem Owner.number_inj {one other : Owner} (same : one.number = other.number) : one = other := by
  cases one <;> cases other <;> simp_all [Owner.number]

/-- The maps of stream `key`, with role `p` where its `uninit` begins. -/
def World.tearing (w : World) (key : Text) (p : Nat) (added : Bool) : RingOwnership.Stream where
  publisher := (w.publishers key).map Owner.number
  ring := w.rings key
  roles := Function.update (fun _ => ⟨.publisher,.idle,false⟩) (Owner.publisher p).number ⟨.publisher,.ownerCheck,added⟩

/-- The teardown of a bound role is what the operations of `CSLSPublisher::uninit` come to,
each under the lock of its map, where nothing falls between them. -/
theorem World.uninit_operations (w : World) (p : Nat) {role : Role} (bound : role.bound = true) (place : Place) (added : Bool) :
    ∃ (acts : List RingOwnership.Act) (last : RingOwnership.Stream), RingOwnership.stream.run (w.tearing role.key p added)
        (acts.map fun act => ((Owner.publisher p).number,act)) = some last ∧
      last.publisher = ((w.uninit p role place).publishers role.key).map Owner.number ∧
      last.ring = (w.uninit p role place).rings role.key := by
  have left : ((w.uninit p role place).publishers role.key).map Owner.number =
      RingOwnership.mapPublisherRemove ((w.publishers role.key).map Owner.number) (Owner.publisher p).number := by
    change ((if role.bound then fun key => if w.publishers key = some (.publisher p) then none else w.publishers key
      else w.publishers) role.key).map Owner.number = _
    rw [if_pos bound]
    unfold RingOwnership.mapPublisherRemove
    by_cases mine : w.publishers role.key = some (.publisher p)
    · rw [if_pos mine,mine]
      exact (if_pos rfl).symm
    · rw [if_neg mine,if_neg]
      intro same
      obtain ⟨owner,owns,number⟩ := Option.map_eq_some_iff.mp same
      exact mine (owns.trans (congrArg some (Owner.number_inj number)))
  have rings : (w.uninit p role place).rings role.key =
      if w.publishers role.key = none ∨ w.publishers role.key = some (.publisher p) then false else w.rings role.key := by
    change (if role.bound ∧ (w.publishers role.key = none ∨ w.publishers role.key = some (.publisher p)) then
      Function.update w.rings role.key false else w.rings) role.key = _
    simp only [bound,true_and]
    split
    · exact Function.update_self _ _ _
    · rfl
  have asks : ((w.publishers role.key).map Owner.number = none ∨
      (w.publishers role.key).map Owner.number = some (Owner.publisher p).number) ↔
      (w.publishers role.key = none ∨ w.publishers role.key = some (.publisher p)) := by
    cases owner : w.publishers role.key with
    | none => simp
    | some other =>
      simp only [Option.map_some,reduceCtorEq,false_or,Option.some.injEq]
      exact ⟨Owner.number_inj,congrArg Owner.number⟩
  have place : (w.tearing role.key p added).roles (Owner.publisher p).number = ⟨.publisher,.ownerCheck,added⟩ := by
    simp [World.tearing]
  obtain ⟨acts,last,ran,publisher,ring⟩ := (w.tearing role.key p added).uninit_run (by rw [place]) (by rw [place])
  refine ⟨acts,last,ran,publisher.trans left.symm,ring.trans ?_⟩
  rw [rings]
  exact if_congr asks rfl rfl

end Granularity

end SrtLiveServer.PublisherAuth
