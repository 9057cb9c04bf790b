import SrtLiveServer.PublisherSessions
import SrtLiveServer.StreamKeys

/-! Publisher takeover against the clock. Each role carries the time of its last packet
and of its last activity; from them `finish_publisher_accept` tells a delivering
incumbent from a stale one, and `get_state` reaps an idle connection. -/
namespace SrtLiveServer.PublisherAuth
open Bytes Transition Custody
open StreamKeys (hasRecentRecvData activeIncumbentRecvWindowMs)

structure Timing where
  /-- `m_last_recv_data_tm`; 0 before the first packet. -/
  lastRecvDataTm : Nat
  invalidBeginTm : Nat
deriving DecidableEq

/-- The timeouts a role was accepted with. -/
structure Timeouts where
  firstDataTimeoutMs : Int
  /-- In seconds; -1 for none. -/
  idleStreamsTimeout : Int

def slsShouldReapRole (nowMs lastRecvDataMs lastActivityMs firstDataTimeoutMs idleTimeoutS : Int)
    (authorizationPending : Bool) : Bool :=
  if 0 < firstDataTimeoutMs ∧ lastRecvDataMs = 0 then
    if authorizationPending then false else firstDataTimeoutMs ≤ nowMs - lastActivityMs
  else if idleTimeoutS = -1 then false
  else idleTimeoutS * 1000 ≤ nowMs - lastActivityMs

/-- At the clock of a takeover check. -/
def Timing.recent (timing : Timing) (now : Nat) : Bool :=
  hasRecentRecvData timing.lastRecvDataTm now activeIncumbentRecvWindowMs

def Timing.checkIdleStreamsDuration (timing : Timing) (timeouts : Timeouts) (curTimeMs : Nat) (role : Role) : Bool :=
  slsShouldReapRole curTimeMs timing.lastRecvDataTm timing.invalidBeginTm timeouts.firstDataTimeoutMs
    timeouts.idleStreamsTimeout (!role.httpPassed)

def Timing.checkHttpPassed (timing : Timing) (now : Nat) (role : Role) : Timing :=
  match (role.checkHttpPassed now).1 with
  | .authorized _ => {timing with invalidBeginTm := now}
  | _ => timing

/-- A read marks the time of a well-formed packet, also of one over the bitrate limit. -/
def Timing.handlerReadData (timing : Timing) (now : Nat) (role : Role) (received : Received) : Timing :=
  let (check,checked) := role.checkHttpPassed now
  if !check.isOk then timing
  else match checked.srt,received with
    | true,.overBitrate | true,.packet => ⟨now,now⟩
    | _,_ => timing.checkHttpPassed now role

structure Timed where
  world : World
  timings : Nat → Timing

def Timed.start : Timed := ⟨World.start,fun _ => ⟨0,0⟩⟩

/-- Only a `CSLSPublisher` is protected against a takeover, never a relay. -/
def Timed.protectedIncumbent (t : Timed) (l : Nat) : Bool :=
  match (t.world.listeners l).phase with
  | .finishing p => match t.world.roles[p]?.bind fun role => t.world.publishers role.key with
    | some (.publisher q) => (t.timings q).recent t.world.clock
    | _ => false
  | _ => false

section

variable (timeouts : Nat → Timeouts)

/-- The label with what the clock decides filled in: the protection of an incumbent, and
an idle connection, which counts as a broken one. -/
def Timed.decided (t : Timed) : Label → Label
  | .finish l _ => .finish l (t.protectedIncumbent l)
  | .checkInvalidSock p sockBroken => .checkInvalidSock p
      ((t.world.roles[p]?.any fun role => (t.timings p).checkIdleStreamsDuration (timeouts p) t.world.clock role) || sockBroken)
  | label => label

def Timed.marks (t : Timed) (p : Nat) (mark : Timing → Role → Timing) : Nat → Timing :=
  match t.world.roles[p]? with
  | some role => Function.update t.timings p (mark (t.timings p) role)
  | none => t.timings

/-- The markers after a step from `t`. -/
def Timed.marked (t : Timed) : Label → Nat → Timing
  | .accept _ _ _ => Function.update t.timings t.world.roles.length ⟨0,t.world.clock⟩
  | .settle l => match (t.world.listeners l).phase with
    | .asked p => t.marks p fun timing role => timing.checkHttpPassed t.world.clock role
    | _ => t.timings
  | .poll _ p | .onWorkerTick p => t.marks p fun timing role => timing.checkHttpPassed t.world.clock role
  | .readable p received _ => t.marks p fun timing role => timing.handlerReadData t.world.clock role received
  | .checkWaitHttpRole p received _ => t.marks p fun timing role =>
      if role.httpFuture.isSome then timing.handlerReadData t.world.clock role received else timing
  | _ => t.timings

def Timed.step (onEventUrl : Text) (t : Timed) (label : Label) : Option Timed :=
  (t.world.step onEventUrl (t.decided timeouts label)).map fun later => ⟨later,t.marked label⟩

def timed (onEventUrl : Text) : Machine Timed Label := ⟨Timed.step timeouts onEventUrl⟩

end

section Frames

/-- Role `p` and its hold on its stream. -/
structure World.Keeps (w : World) (p : Nat) (role : Role) : Prop where
  entry : w.roles[p]? = some role
  owns : w.publishers role.key = some (.publisher p)

variable {w : World} {p q : Nat} {role other : Role}

theorem World.Keeps.turn (keeps : w.Keeps p role) (apart : p ≠ q) (other : Role) (added : List Event) :
    (w.setRole q other added).Keeps p role :=
  ⟨(World.setRole_other added apart).trans keeps.entry,keeps.owns⟩

theorem World.Keeps.uninit (keeps : w.Keeps p role) (apart : p ≠ q) (place : Place) :
    (w.uninit q other place).Keeps p role := by
  refine ⟨(World.setRole_other [] apart).trans keeps.entry,?_⟩
  change (if other.bound then fun key => if w.publishers key = some (.publisher q) then none else w.publishers key
    else w.publishers) role.key = some (.publisher p)
  split
  · dsimp only
    rw [keeps.owns,if_neg fun same => apart (Owner.publisher.inj (Option.some.inj same))]
  · exact keeps.owns

theorem World.Keeps.uninitAll (keeps : w.Keeps p role) {pending : List Nat} (apart : p ∉ pending) :
    (w.uninitAll pending).Keeps p role := by
  induction pending generalizing w with
  | nil => exact keeps
  | cons q rest ih =>
    have rest : p ∉ rest := fun among => apart (List.mem_cons_of_mem _ among)
    unfold World.uninitAll
    split
    · refine ih (keeps.uninit (fun same => apart ?_) .dropped) rest
      exact same ▸ List.mem_cons_self
    · exact ih keeps rest

theorem World.Keeps.park (keeps : w.Keeps p role) (l : Nat) (listener : Listener) :
    (w.setListener l listener).Keeps p role := ⟨keeps.entry,keeps.owns⟩

theorem World.Keeps.poll (keeps : w.Keeps p role) (apart : p ≠ q) (l : Nat) (held left : List Nat) :
    (w.poll l q other held left).Keeps p role := by
  have seen := keeps.turn apart (other.checkHttpPassed w.clock).2
    ((other.checkHttpPassed w.clock).1.events q w.clock)
  unfold World.poll
  dsimp only
  split
  · exact seen.park l _
  split
  · exact (seen.uninit apart .dropped).park l _
  · exact seen.park l _

theorem World.Keeps.finish (keeps : w.Keeps p role) (apart : p ≠ q) (l : Nat) {protectedIncumbent : Bool}
    (safe : w.publishers other.key = some (.publisher p) → protectedIncumbent = true) :
    (w.finish l q other protectedIncumbent).Keeps p role := by
  unfold World.finish
  split
  · rename_i incumbent owned
    have evicted : (w.evict incumbent protectedIncumbent).Keeps p role := by
      unfold World.evict
      split
      · rename_i r _
        split
        · refine keeps.turn ?_ _ []
          rintro rfl
          cases safe owned
        · exact keeps
      · exact keeps
    dsimp only
    split
    · exact (evicted.park l _).uninit apart .dropped
    · exact evicted.park l _
  · exact (keeps.turn apart _ []).park l _

theorem World.Keeps.publish (keeps : w.Keeps p role) (apart : p ≠ q) (l : Nat) : (w.publish l q other).Keeps p role := by
  unfold World.publish
  dsimp only
  split
  · exact (keeps.uninit apart .dropped).park l _
  · rename_i nobody
    have listed := (keeps.turn apart {other with place := .list} [.registered q]).park l
      {w.listeners l with phase := .idle}
    have elsewhere : role.key ≠ other.key := by
      intro same
      rw [← same,keeps.owns] at nobody
      cases nobody
    exact ⟨listed.entry,(Function.update_of_ne elsewhere _ _).trans keeps.owns⟩

theorem World.Keeps.handler (keeps : w.Keeps p role) (apart : p ≠ q) (received : Received) (room marks : Bool) :
    (w.handler q other received room marks).Keeps p role := by
  have turned := keeps.turn apart (if marks && !(other.handlerReadData q w.clock received (w.rings other.key) room).ok then
      (other.handlerReadData q w.clock received (w.rings other.key) room).role.markInvalid
    else (other.handlerReadData q w.clock received (w.rings other.key) room).role)
    (other.handlerReadData q w.clock received (w.rings other.key) room).events
  exact ⟨turned.entry,turned.owns⟩

theorem World.Keeps.checkInvalidSock (keeps : w.Keeps p role) (apart : p ≠ q) (broken : Bool) :
    (w.checkInvalidSock q other broken).Keeps p role := by
  unfold World.checkInvalidSock
  generalize (if other.state ≠ .invalid ∧ (other.kickRequested ∨ broken) then other.markInvalid else other) = last
  dsimp only
  split
  · exact keeps.turn apart _ []
  · exact keeps.uninit apart _

theorem World.Keeps.accept (keeps : w.Keeps p role) (onEventUrl : Text) (l : Nat) (offer : Offer) (threw : Bool) :
    (w.accept onEventUrl l offer threw).Keeps p role := by
  have longer : ∀ next : Role, (w.roles ++ [next])[p]? = some role := by
    intro next
    obtain ⟨bound,_⟩ := List.getElem?_eq_some_iff.mp keeps.entry
    exact (List.getElem?_append_left bound).trans keeps.entry
  unfold World.accept
  dsimp only
  split
  · exact keeps
  split
  · exact ⟨longer _,keeps.owns⟩
  · exact ⟨longer _,keeps.owns⟩

end Frames

section Takeovers

/-- In a worker's hands, open, and not asked to leave. -/
structure Role.Serving (role : Role) : Prop where
  place : role.place = .worker
  inited : role.state = .inited
  isOpen : role.srt = true
  passed : role.httpPassed = true
  unkicked : role.kickRequested = false

/-- Connection `p` is the registered publisher of stream `key`, and a worker serves it. -/
def World.Serves (w : World) (p : Nat) (key : Text) : Prop := ∃ role, w.Keeps p role ∧ role.key = key ∧ role.Serving

/-- `p` does not fail by itself: its reads succeed, its socket is not broken, and neither a
control call nor a shutdown ends it. -/
def Timed.unharmed (p : Nat) (t : Timed) : Label → Bool
  | .requestKick q | .drop q => q ≠ p
  | .readable q received room => q ≠ p || t.world.roles[p]?.all fun role =>
      (role.handlerReadData p t.world.clock received (t.world.rings role.key) room).ok
  | .checkInvalidSock q sockBroken => q ≠ p || !sockBroken
  | _ => true

/-- The last packet of `p` is at most a second old. -/
def Timed.Delivers (p : Nat) (t : Timed) (label : Label) : Prop :=
  (t.timings p).recent t.world.clock = true ∧ t.unharmed p label = true

instance (p : Nat) (t : Timed) (label : Label) : Decidable (t.Delivers p label) :=
  inferInstanceAs (Decidable (_ ∧ _))

variable {w : World} {p : Nat} {role : Role}

theorem Role.checkHttpPassed_passed (passed : role.httpPassed = true) (now : Nat) :
    role.checkHttpPassed now = (.alreadyPassed,role) := if_pos passed

theorem Role.Serving.read (serving : role.Serving) (now : Nat) (received : Received) (ring room : Bool)
    (ok : (role.handlerReadData p now received ring room).ok = true) :
    (role.handlerReadData p now received ring room).role.key = role.key ∧
      (role.handlerReadData p now received ring room).role.Serving := by
  have same : role.key = role.key ∧ role.Serving := ⟨rfl,serving⟩
  have added : ({role with srt := true,ringAdded := true} : Role).Serving :=
    ⟨serving.place,serving.inited,rfl,serving.passed,serving.unkicked⟩
  unfold Role.handlerReadData at ok ⊢
  rw [Role.checkHttpPassed_passed serving.passed] at ok ⊢
  dsimp only [Check.isOk] at ok ⊢
  rw [serving.isOpen] at ok ⊢
  cases received with
  | noData => exact same
  | peerGone => exact same
  | misaligned => cases ok
  | overBitrate => cases ok
  | packet =>
    simp only [Bool.not_true,Bool.false_eq_true,if_false] at ok ⊢
    split at ok
    · cases ok
    rename_i bound
    rw [if_neg bound]
    split at ok
    · rename_i ringed
      rw [if_pos ringed]
      split <;> exact same
    · rename_i unringed
      rw [if_neg unringed]
      split at ok
      · rename_i present
        rw [if_pos present]
        exact ⟨rfl,added⟩
      · cases ok

theorem Timing.not_idle {timing : Timing} {timeouts : Timeouts} {now : Nat} (recent : timing.recent now = true)
    (active : timing.lastRecvDataTm ≠ 0 → timing.invalidBeginTm = timing.lastRecvDataTm)
    (patient : timeouts.idleStreamsTimeout = -1 ∨ 1 < timeouts.idleStreamsTimeout) (role : Role) :
    timing.checkIdleStreamsDuration timeouts now role = false := by
  unfold Timing.recent hasRecentRecvData at recent
  split at recent
  · cases recent
  rename_i unreceived
  have received : timing.lastRecvDataTm ≠ 0 := fun none => unreceived (Int.ofNat_eq_zero.mpr none)
  have recent : (now : Int) - timing.lastRecvDataTm ≤ 1000 := of_decide_eq_true recent
  unfold Timing.checkIdleStreamsDuration slsShouldReapRole
  rw [if_neg fun probation => received (Int.ofNat_eq_zero.mp probation.2),active received]
  split
  · rfl
  · rename_i limited
    obtain unlimited | patient := patient
    · exact absurd unlimited limited
    · exact decide_eq_false (by omega)

/-- A connection that has delivered was admitted, and its last packet was its last activity. -/
def World.Stamped (w : World) (p : Nat) (timing : Timing) : Prop := timing.lastRecvDataTm ≠ 0 →
  ∃ role, w.roles[p]? = some role ∧ role.httpPassed = true ∧ timing.invalidBeginTm = timing.lastRecvDataTm

structure Timed.Sound (t : Timed) : Prop where
  placed : t.world.Placed
  stamped : ∀ p, t.world.Stamped p (t.timings p)

theorem World.Stamped.ages {timing : Timing} {later : World} (stamped : w.Stamped p timing) (ages : w.Ages later) :
    later.Stamped p timing := by
  intro received
  obtain ⟨role,found,passed,active⟩ := stamped received
  obtain ⟨next,there,older⟩ := ages p role found
  exact ⟨next,there,older.passed passed,active⟩

theorem World.Stamped.checkHttpPassed {timing : Timing} (stamped : w.Stamped p timing) (found : w.roles[p]? = some role)
    (now : Nat) : w.Stamped p (timing.checkHttpPassed now role) := by
  intro received
  have before : timing.lastRecvDataTm ≠ 0 := by
    unfold Timing.checkHttpPassed at received
    split at received <;> exact received
  obtain ⟨holder,entry,passed,active⟩ := stamped before
  cases found.symm.trans entry
  have kept : timing.checkHttpPassed now role = timing := by
    unfold Timing.checkHttpPassed
    rw [Role.checkHttpPassed_passed passed]
  exact ⟨role,found,passed,by rw [kept]; exact active⟩

theorem World.Stamped.handlerReadData {timing : Timing} (stamped : w.Stamped p timing) (found : w.roles[p]? = some role)
    (received : Received) (room marks : Bool) (ages : w.Ages (w.handler p role received room marks)) :
    (w.handler p role received room marks).Stamped p (timing.handlerReadData w.clock role received) := by
  have polled := (stamped.checkHttpPassed found w.clock).ages ages
  have read := role.handlerReadData_reads p w.clock received (w.rings role.key) room
  unfold Timing.handlerReadData
  dsimp only
  split
  · exact stamped.ages ages
  rename_i ok
  have passed := Role.checkHttpPassed_isOk role w.clock (by simpa using ok)
  have admitted : ∃ next, (w.handler p role received room marks).roles[p]? = some next ∧ next.httpPassed = true := by
    refine ⟨_,w.roles_setRole found _ (role.handlerReadData p w.clock received (w.rings role.key) room).events,?_⟩
    split
    · exact (Role.markInvalid_alike _).passed (read.alike.passed passed)
    · exact read.alike.passed passed
  obtain ⟨next,there,open'⟩ := admitted
  split
  · exact fun _ => ⟨next,there,open',rfl⟩
  · exact fun _ => ⟨next,there,open',rfl⟩
  · exact polled

theorem Timed.marks_cases (t : Timed) (p q : Nat) (mark : Timing → Role → Timing) :
    t.marks p mark q = t.timings q ∨
      q = p ∧ ∃ role, t.world.roles[p]? = some role ∧ t.marks p mark q = mark (t.timings p) role := by
  unfold Timed.marks
  cases found : t.world.roles[p]? with
  | none => exact .inl rfl
  | some role =>
    by_cases same : q = p
    · subst q
      exact .inr ⟨rfl,role,rfl,Function.update_self _ _ _⟩
    · exact .inl (Function.update_of_ne same _ _)

variable (timeouts : Nat → Timeouts) (onEventUrl : Text)

theorem timed_keeps : (timed timeouts onEventUrl).Keeps (fun _ _ => True) Timed.Sound := by
  intro t label after sound _ taken
  obtain ⟨later,stepped,rfl⟩ := Option.map_eq_some_iff.mp taken
  have airs := sound.placed.airs_step onEventUrl stepped
  refine ⟨airs.placed,?_⟩
  intro q
  have old := (sound.stamped q).ages airs.ages
  have polled : ∀ p, later.Stamped q (t.marks p (fun timing role => timing.checkHttpPassed t.world.clock role) q) := by
    intro p
    obtain same | ⟨rfl,role,found,same⟩ := t.marks_cases p q _
    · rw [same]
      exact old
    · rw [same]
      exact ((sound.stamped q).checkHttpPassed found t.world.clock).ages airs.ages
  cases label with
  | clock _ | finish _ _ | publish _ | stopListener _ | complete _ _ | requestKick _ | adopt _ _ | checkInvalidSock _ _
  | drop _ | relay _ _ => exact old
  | poll _ p | onWorkerTick p => exact polled p
  | accept _ _ _ =>
    change later.Stamped q (Function.update t.timings t.world.roles.length ⟨0,t.world.clock⟩ q)
    by_cases same : q = t.world.roles.length
    · rw [same,Function.update_self]
      exact fun received => absurd rfl received
    · rw [Function.update_of_ne same]
      exact old
  | settle l =>
    have marked : ∀ phase, (t.world.listeners l).phase = phase → t.marked (.settle l) q = match phase with
        | .asked p => t.marks p (fun timing role => timing.checkHttpPassed t.world.clock role) q
        | _ => t.timings q := by
      rintro phase rfl
      cases phase : (t.world.listeners l).phase <;> simp only [Timed.marked,phase]
    change later.Stamped q (t.marked (.settle l) q)
    rw [marked _ rfl]
    split
    · exact polled _
    · exact old
  | readable p received room =>
    obtain same | ⟨rfl,role,found,same⟩ := t.marks_cases p q fun timing role =>
      timing.handlerReadData t.world.clock role received
    · change later.Stamped q (t.marks p _ q)
      rw [same]
      exact old
    · change later.Stamped q (t.marks q _ q)
      rw [same]
      obtain ⟨holder,held,rfl⟩ := Option.map_eq_some_iff.mp stepped
      cases found.symm.trans (World.role_some held)
      exact (sound.stamped q).handlerReadData found received room true airs.ages
  | checkWaitHttpRole p received room =>
    obtain same | ⟨rfl,role,found,same⟩ := t.marks_cases p q fun timing role =>
      if role.httpFuture.isSome then timing.handlerReadData t.world.clock role received else timing
    · change later.Stamped q (t.marks p _ q)
      rw [same]
      exact old
    · change later.Stamped q (t.marks q _ q)
      rw [same]
      obtain ⟨holder,held,rfl⟩ := Option.map_eq_some_iff.mp stepped
      cases found.symm.trans (World.role_some held)
      split
      · rename_i asked
        have ages := airs.ages
        rw [if_pos asked] at ages
        exact (sound.stamped q).handlerReadData found received room false ages
      · rename_i unasked
        rw [if_neg unasked] at old
        exact old

/-- A listener drives connections of its own, and evicts no incumbent that delivers. -/
theorem Timed.keeps_listener {timeouts : Nat → Timeouts} {t : Timed} {label : Label} {later : World} {role : Role}
    (keeps : t.world.Keeps p role) (apart : ∀ {q : Nat}, Held t.world.holds q → p ≠ q)
    (recent : (t.timings p).recent t.world.clock = true)
    (stepped : t.world.step onEventUrl (t.decided timeouts label) = some later) (listening : label.OfListener) :
    later.Keeps p role := by
  have driven : ∀ {l q : Nat} {phase : Phase}, (t.world.listeners l).phase = phase → phase.held = [q] → p ≠ q := by
    intro l q phase current carried
    refine apart ⟨l,?_⟩
    rw [World.holds_phase current,carried]
    exact List.mem_append_right _ (List.mem_singleton.mpr rfl)
  cases label with
  | accept l offer threw =>
    simp only [Timed.decided,World.step] at stepped
    split at stepped
    · cases stepped
      exact keeps.accept onEventUrl l offer threw
    · cases stepped
  | settle l =>
    simp only [Timed.decided,World.step] at stepped
    split at stepped
    · rename_i q asked
      obtain ⟨other,found,rfl⟩ := Option.map_eq_some_iff.mp stepped
      exact keeps.poll (driven asked rfl) l _ _
    · cases stepped
  | poll l q =>
    simp only [Timed.decided,World.step] at stepped
    split at stepped
    · rename_i ready
      obtain ⟨other,found,rfl⟩ := Option.map_eq_some_iff.mp stepped
      exact keeps.poll (apart ⟨l,List.mem_append_left _ ready.2.2⟩) l _ _
    · cases stepped
  | finish l _ =>
    simp only [Timed.decided,World.step] at stepped
    split at stepped
    · rename_i q finishing
      obtain ⟨other,found,rfl⟩ := Option.map_eq_some_iff.mp stepped
      refine keeps.finish (driven finishing rfl) l fun owned => ?_
      simp only [Timed.protectedIncumbent,finishing,found,Option.bind_some,owned]
      exact recent
    · cases stepped
  | publish l =>
    simp only [Timed.decided,World.step] at stepped
    split at stepped
    · rename_i q publishing
      obtain ⟨other,found,rfl⟩ := Option.map_eq_some_iff.mp stepped
      exact keeps.publish (driven publishing rfl) l
    · cases stepped
  | stopListener l =>
    simp only [Timed.decided,World.step] at stepped
    split at stepped
    · cases stepped
      have free : p ∉ (t.world.listeners l).pending := fun among => apart ⟨l,List.mem_append_left _ among⟩ rfl
      exact (keeps.uninitAll free).park l _
    · cases stepped
  | _ => exact listening.elim

theorem World.Keeps.relay {w later : World} {role : Role} {key : Text} {act : RelayAct} (keeps : w.Keeps p role)
    (stepped : w.relay key act = some later) : later.Keeps p role := by
  obtain ⟨owner,ring,relays,rfl,strangers⟩ := World.relay_cases stepped
  refine ⟨keeps.entry,?_⟩
  change Function.update w.publishers key owner role.key = some (.publisher p)
  by_cases same : role.key = key
  · rw [same,Function.update_self]
    exact (strangers p).mpr (same ▸ keeps.owns)
  · exact (Function.update_of_ne same _ _).trans keeps.owns

theorem World.Keeps.serves_turn {w : World} {role next : Role} (keeps : w.Keeps p role) (added : List Event)
    (same : next.key = role.key) (serving : next.Serving) : (w.setRole p next added).Serves p role.key :=
  ⟨next,⟨w.roles_setRole keeps.entry next added,same ▸ keeps.owns⟩,same,serving⟩

theorem World.Keeps.serves_read {w : World} {role : Role} (keeps : w.Keeps p role) (serving : role.Serving)
    (received : Received) (room : Bool)
    (ok : (role.handlerReadData p w.clock received (w.rings role.key) room).ok = true) :
    (w.handler p role received room true).Serves p role.key := by
  obtain ⟨same,still⟩ := serving.read w.clock received (w.rings role.key) room ok
  unfold World.handler
  dsimp only
  rw [ok,Bool.not_true,Bool.and_false,if_neg Bool.false_ne_true]
  obtain ⟨next,after,rest⟩ := keeps.serves_turn (role.handlerReadData p w.clock received (w.rings role.key) room).events
    same still
  exact ⟨next,⟨after.entry,after.owns⟩,rest⟩

theorem World.Keeps.serves_check {w : World} {role : Role} (keeps : w.Keeps p role) (serving : role.Serving) :
    (w.checkInvalidSock p role false).Serves p role.key := by
  unfold World.checkInvalidSock
  rw [serving.unkicked]
  simp only [Bool.false_eq_true,or_self,and_false,if_false,serving.inited,if_true]
  exact keeps.serves_turn [] rfl serving

theorem Timed.Sound.serves_step {timeouts : Nat → Timeouts} {t : Timed} {label : Label} {later : World} {key : Text}
    (sound : t.Sound) (patient : (timeouts p).idleStreamsTimeout = -1 ∨ 1 < (timeouts p).idleStreamsTimeout)
    (serves : t.world.Serves p key) (delivers : t.Delivers p label)
    (stepped : t.world.step onEventUrl (t.decided timeouts label) = some later) : later.Serves p key := by
  obtain ⟨role,keeps,rfl,serving⟩ := serves
  obtain ⟨recent,fair⟩ := delivers
  have stays : later.Keeps p role → later.Serves p role.key := fun keeps => ⟨role,keeps,rfl,serving⟩
  -- a worker serves `p`, so no listener holds it
  have apart : ∀ {q : Nat}, Held t.world.holds q → p ≠ q := by
    rintro q held rfl
    exact sound.placed.free keeps.entry (serving.place ▸ Place.noConfusion) held
  have elsewhere : ∀ {q : Nat} {other : Role} {place : Place}, t.world.role q place = some other → place ≠ .worker →
      p ≠ q := by
    rintro q other place held away rfl
    cases keeps.entry.symm.trans (World.role_some held)
    exact away ((World.role_place held).symm.trans serving.place)
  cases label with
  | clock now =>
    cases stepped
    exact stays ⟨keeps.entry,keeps.owns⟩
  | accept _ _ _ | settle _ | poll _ _ | finish _ _ | publish _ | stopListener _ =>
    exact stays (Timed.keeps_listener onEventUrl keeps apart recent stepped trivial)
  | complete q response =>
    simp only [Timed.decided,World.step] at stepped
    obtain ⟨other,found,answered⟩ := Option.bind_eq_some_iff.mp stepped
    split at answered
    · cases answered
      by_cases same : p = q
      · subst q
        cases keeps.entry.symm.trans found
        exact keeps.serves_turn _ rfl ⟨serving.place,serving.inited,serving.isOpen,serving.passed,serving.unkicked⟩
      · exact stays (keeps.turn same _ _)
    · cases answered
  | requestKick q =>
    obtain ⟨other,found,rfl⟩ := Option.map_eq_some_iff.mp stepped
    exact stays (keeps.turn (Ne.symm (of_decide_eq_true fair)) _ [])
  | adopt q subscribed =>
    obtain ⟨other,held,rfl⟩ := Option.map_eq_some_iff.mp stepped
    have apart := elsewhere held Place.noConfusion
    apply stays
    split
    · exact keeps.turn apart _ []
    · exact keeps.uninit apart .dropped
  | onWorkerTick q =>
    obtain ⟨other,held,rfl⟩ := Option.map_eq_some_iff.mp stepped
    by_cases same : p = q
    · subst q
      cases keeps.entry.symm.trans (World.role_some held)
      rw [Role.checkHttpPassed_passed serving.passed]
      exact keeps.serves_turn _ rfl serving
    · exact stays (keeps.turn same _ _)
  | readable q received room =>
    obtain ⟨other,held,rfl⟩ := Option.map_eq_some_iff.mp stepped
    by_cases same : p = q
    · subst q
      cases keeps.entry.symm.trans (World.role_some held)
      have ok : (role.handlerReadData p t.world.clock received (t.world.rings role.key) room).ok = true := by
        simpa [Timed.unharmed,keeps.entry] using fair
      exact keeps.serves_read serving received room ok
    · exact stays (keeps.handler same received room true)
  | checkInvalidSock q sockBroken =>
    obtain ⟨other,held,rfl⟩ := Option.map_eq_some_iff.mp stepped
    by_cases same : p = q
    · subst q
      cases keeps.entry.symm.trans (World.role_some held)
      have active : (t.timings p).lastRecvDataTm ≠ 0 → (t.timings p).invalidBeginTm = (t.timings p).lastRecvDataTm := by
        intro received
        obtain ⟨_,_,_,active⟩ := sound.stamped p received
        exact active
      have idle := Timing.not_idle recent active patient role
      have unbroken : sockBroken = false := by simpa [Timed.unharmed] using fair
      rw [keeps.entry,Option.any_some,idle,unbroken,Bool.or_self]
      exact keeps.serves_check serving
    · exact stays (keeps.checkInvalidSock same _)
  | checkWaitHttpRole q received room =>
    obtain ⟨other,held,rfl⟩ := Option.map_eq_some_iff.mp stepped
    have apart := elsewhere held Place.noConfusion
    apply stays
    split
    · exact keeps.handler apart received room false
    · exact keeps.uninit apart .dropped
  | drop q =>
    simp only [Timed.decided,World.step] at stepped
    obtain ⟨other,found,dropped⟩ := Option.bind_eq_some_iff.mp stepped
    split at dropped
    · cases dropped
    · cases dropped
      exact stays (keeps.uninit (Ne.symm (of_decide_eq_true fair)) .dropped)
  | relay other act => exact stays (keeps.relay stepped)

theorem Timed.start_sound : Timed.start.Sound :=
  ⟨World.start_placed,fun _ received => absurd rfl received⟩

/-- From any reachable state in which a worker serves publisher `p`, over every run in which
`p` delivers: `p` stays the registered publisher of its stream, open and never asked to
leave, whatever other connections are authorized for that stream, at any listener. -/
theorem delivering_publisher_keeps_stream (past labels : List Label) (t last : Timed) (key : Text)
    (reached : (timed timeouts onEventUrl).run Timed.start past = some t)
    (patient : (timeouts p).idleStreamsTimeout = -1 ∨ 1 < (timeouts p).idleStreamsTimeout)
    (serves : t.world.Serves p key) (delivers : (timed timeouts onEventUrl).Admits (Timed.Delivers p) t labels)
    (ran : (timed timeouts onEventUrl).run t labels = some last) : last.world.Serves p key := by
  have keeps : (timed timeouts onEventUrl).Keeps (Timed.Delivers p) fun t => t.Sound ∧ t.world.Serves p key := by
    intro t label next both delivers taken
    refine ⟨timed_keeps timeouts onEventUrl t label next both.1 trivial taken,?_⟩
    obtain ⟨later,stepped,rfl⟩ := Option.map_eq_some_iff.mp taken
    exact both.1.serves_step onEventUrl patient both.2 delivers stepped
  have sound := (timed_keeps timeouts onEventUrl).run_all Timed.start_sound reached
  exact (keeps.run ⟨sound,serves⟩ delivers ran).2

/-- A broadcast that is a second old, of a connection still delivering. -/
def delivering : List Label :=
  [.clock 5000,.accept 0 ⟨ascii "live/s",ascii "publish/live/s",ascii "10.0.0.1",5000⟩ false,.settle 0,.finish 0 false,
    .publish 0,.adopt 0 true,.readable 0 .packet true]

/-- A player that is pointed at the ingest port of that stream. -/
def refusedPlayer : List Label :=
  [.clock 5600,.accept 1 ⟨ascii "live/s",ascii "publish/live/s",ascii "10.0.0.2",5001⟩ false,.settle 1,.finish 1 false,
    .clock 6000,.checkInvalidSock 0 false,.readable 0 .packet true,.clock 6900,.checkInvalidSock 0 false]

theorem delivering_publisher_keeps_stream_player :
    ∃ t last, (timed (fun _ => ⟨3000,10⟩) []).run Timed.start delivering = some t ∧
      (timed (fun _ => ⟨3000,10⟩) []).run t refusedPlayer = some last ∧ last.world.Serves 0 (ascii "live/s") := by
  let encoder : Role := {Role.accepted (ascii "live/s") (ascii "publish/live/s") (ascii "10.0.0.1") 5000 with
    bound := true,ringAdded := true,place := .worker}
  have seen : ((timed (fun _ => ⟨3000,10⟩) []).run Timed.start delivering).any (fun t =>
      decide ((t.world.roles[0]? = some encoder ∧ t.world.publishers encoder.key = some (.publisher 0)) ∧
        (timed (fun _ => ⟨3000,10⟩) []).Admits (Timed.Delivers 0) t refusedPlayer) &&
      ((timed (fun _ => ⟨3000,10⟩) []).run t refusedPlayer).isSome) = true := by
    decide +kernel
  obtain ⟨t,reached,facts⟩ := (Option.any_eq_true _ _).mp seen
  obtain ⟨facts,finishes⟩ := (Bool.and_eq_true _ _).mp facts
  obtain ⟨⟨entry,owns⟩,delivers⟩ := of_decide_eq_true facts
  obtain ⟨last,ran⟩ := Option.isSome_iff_exists.mp finishes
  have serves : t.world.Serves 0 (ascii "live/s") := ⟨encoder,⟨entry,owns⟩,rfl,⟨rfl,rfl,rfl,rfl,rfl⟩⟩
  exact ⟨t,last,reached,ran,delivering_publisher_keeps_stream (fun _ => ⟨3000,10⟩) [] delivering refusedPlayer t last
    (ascii "live/s") reached (.inr (by decide)) serves delivers ran⟩

/-- Publisher `p` of stream `key` has been asked to leave. -/
def World.Kicked (w : World) (p : Nat) (key : Text) : Prop :=
  ∃ role, w.roles[p]? = some role ∧ role.key = key ∧ role.kickRequested = true

theorem World.Ages.kicked {later : World} {key : Text} (ages : w.Ages later) (kicked : w.Kicked p key) :
    later.Kicked p key := by
  obtain ⟨role,found,mine,asked⟩ := kicked
  obtain ⟨next,there,older⟩ := ages p role found
  exact ⟨next,there,older.key.trans mine,older.kicked asked⟩

/-- The worker's next health check of a kicked publisher frees its stream. -/
theorem World.Placed.kicked_leaves (placed : w.Placed) {key : Text} (kicked : w.Kicked p key) (broken : Bool) {later : World}
    (stepped : w.step onEventUrl (.checkInvalidSock p broken) = some later) :
    later.publishers key = none ∧ later.rings key = false ∧
      ∃ role, later.roles[p]? = some role ∧ role.srt = false ∧ role.place.stage = .retired := by
  obtain ⟨role,held,rfl⟩ := Option.map_eq_some_iff.mp stepped
  have found := World.role_some held
  obtain ⟨holder,entry,mine,asked⟩ := kicked
  cases found.symm.trans entry
  have live : role.Live := congrArg Place.stage (World.role_place held)
  have owns := placed.live p role found live
  obtain ⟨holder,entry,_,_,bound⟩ := placed.owner role.key p owns
  cases found.symm.trans entry
  unfold World.checkInvalidSock
  have polled : (if role.state ≠ .invalid ∧ (role.kickRequested ∨ broken) then role.markInvalid else role).state = .invalid ∧
      role.Alike (if role.state ≠ .invalid ∧ (role.kickRequested ∨ broken) then role.markInvalid else role) := by
    split
    · exact ⟨(Role.invalidSrt_closed {role with state := .invalid}).2,Role.markInvalid_alike role⟩
    · rename_i marked
      refine ⟨?_,Role.Alike.refl role⟩
      by_contra unmarked
      exact marked ⟨unmarked,.inl asked⟩
  generalize (if role.state ≠ .invalid ∧ (role.kickRequested ∨ broken) then role.markInvalid else role) = last at polled ⊢
  obtain ⟨invalid,alike⟩ := polled
  have torn : last.state ≠ .inited := by
    rw [invalid]
    exact RoleState.noConfusion
  have key := alike.key.trans mine
  dsimp only
  rw [if_neg torn]
  rw [mine] at owns
  refine ⟨?_,?_,_,w.roles_setRole found _ [],?_,?_⟩
  · change (if last.bound then fun key => if w.publishers key = some (.publisher p) then none else w.publishers key
      else w.publishers) _ = none
    rw [if_pos (alike.bound bound)]
    exact if_pos owns
  · change (if last.bound ∧ (w.publishers last.key = none ∨ w.publishers last.key = some (.publisher p)) then
      Function.update w.rings last.key false else w.rings) _ = false
    rw [if_pos ⟨alike.bound bound,.inr (key.symm ▸ owns)⟩,key]
    exact Function.update_self _ _ _
  · exact (Role.uninit_alike last).2 (alike.closed (placed.closed p role found))
  · change Place.stage (if last.uninit.httpFuture.isSome then .waitHttp else .dropped) = .retired
    split <;> rfl

/-- A takeover of a silent stream completes. Once an authorized newcomer has found an
incumbent that delivered nothing for a second, then whatever else happens, with webhooks,
other newcomers and packets that come after all, the incumbent's next health check closes
it and leaves its stream without a publisher and without a ring. -/
theorem stale_incumbent_yields (past labels : List Label) (t evicting u v : Timed) (l q : Nat) (newcomer : Role)
    (reached : (timed timeouts onEventUrl).run Timed.start past = some t)
    (finishing : (t.world.listeners l).phase = .finishing q) (found : t.world.roles[q]? = some newcomer)
    (owned : t.world.publishers newcomer.key = some (.publisher p))
    (stale : (t.timings p).recent t.world.clock = false) (flag sockBroken : Bool)
    (evicts : (timed timeouts onEventUrl).step t (.finish l flag) = some evicting)
    (ran : (timed timeouts onEventUrl).run evicting labels = some u)
    (checks : (timed timeouts onEventUrl).step u (.checkInvalidSock p sockBroken) = some v) :
    v.world.publishers newcomer.key = none ∧ v.world.rings newcomer.key = false ∧
      ∃ role, v.world.roles[p]? = some role ∧ role.srt = false ∧ role.place.stage = .retired := by
  have sound := (timed_keeps timeouts onEventUrl).run_all Timed.start_sound reached
  have settled := timed_keeps timeouts onEventUrl t _ evicting sound trivial evicts
  have kicked : evicting.world.Kicked p newcomer.key := by
    obtain ⟨later,stepped,rfl⟩ := Option.map_eq_some_iff.mp evicts
    obtain ⟨incumbent,entry,mine,live,_⟩ := sound.placed.owner newcomer.key p owned
    have apart : p ≠ q := by
      rintro rfl
      cases found.symm.trans entry
      have held : Held t.world.holds p := ⟨l,by
        rw [World.holds_phase finishing]
        exact List.mem_append_right _ (List.mem_singleton.mpr rfl)⟩
      obtain ⟨holder,entry,offered⟩ := sound.placed.held p held
      cases found.symm.trans entry
      rw [Role.Live,offered] at live
      cases live
    have unprotected : t.protectedIncumbent l = false := by
      simp only [Timed.protectedIncumbent,finishing,found,Option.bind_some,owned]
      exact stale
    simp only [Timed.decided,World.step,finishing,unprotected] at stepped
    obtain ⟨other,again,rfl⟩ := Option.map_eq_some_iff.mp stepped
    cases found.symm.trans again
    have asked := t.world.roles_setRole entry {incumbent with kickRequested := true} []
    unfold World.finish
    simp only [owned,World.evict,entry]
    split
    · refine ⟨{incumbent with kickRequested := true},?_,mine,rfl⟩
      exact (World.setRole_other [] apart).trans asked
    · exact ⟨{incumbent with kickRequested := true},asked,mine,rfl⟩
  have keeps : (timed timeouts onEventUrl).Keeps (fun _ _ => True) fun t => t.Sound ∧ t.world.Kicked p newcomer.key := by
    intro t label next both _ taken
    refine ⟨timed_keeps timeouts onEventUrl t label next both.1 trivial taken,?_⟩
    obtain ⟨later,stepped,rfl⟩ := Option.map_eq_some_iff.mp taken
    exact (both.1.placed.airs_step onEventUrl stepped).ages.kicked both.2
  obtain ⟨sound,kicked⟩ := keeps.run_all ⟨settled,kicked⟩ ran
  obtain ⟨later,stepped,rfl⟩ := Option.map_eq_some_iff.mp checks
  exact sound.placed.kicked_leaves onEventUrl kicked _ stepped

/-- An encoder that reconnects a second after its old session went silent. -/
def reconnecting : List Label :=
  delivering ++ [.clock 6001,.accept 1 ⟨ascii "live/s",ascii "publish/live/s",ascii "10.0.0.1",5002⟩ false,.settle 1]

theorem stale_incumbent_yields_reconnect :
    ∃ v, (timed (fun _ => ⟨3000,10⟩) []).run Timed.start (reconnecting ++ [.finish 1 false,.readable 0 .packet true,
        .checkInvalidSock 0 false]) = some v ∧ v.world.publishers (ascii "live/s") = none := by
  let newcomer := Role.accepted (ascii "live/s") (ascii "publish/live/s") (ascii "10.0.0.1") 5002
  have seen : ((timed (fun _ => ⟨3000,10⟩) []).run Timed.start reconnecting).any (fun t =>
      decide ((t.world.listeners 1).phase = .finishing 1 ∧ t.world.roles[1]? = some newcomer ∧
        t.world.publishers newcomer.key = some (.publisher 0) ∧
        (t.timings 0).recent t.world.clock = false) &&
      ((timed (fun _ => ⟨3000,10⟩) []).run t [.finish 1 false,.readable 0 .packet true,.checkInvalidSock 0 false]).isSome) = true := by
    decide +kernel
  obtain ⟨t,reached,facts⟩ := (Option.any_eq_true _ _).mp seen
  obtain ⟨facts,finishes⟩ := (Bool.and_eq_true _ _).mp facts
  obtain ⟨finishing,found,owned,stale⟩ := of_decide_eq_true facts
  obtain ⟨v,ran⟩ := Option.isSome_iff_exists.mp finishes
  obtain ⟨evicting,evicts,rest⟩ := Machine.run_cons ran
  obtain ⟨u,read,rest⟩ := Machine.run_cons rest
  obtain ⟨last,checks,done⟩ := Machine.run_cons rest
  cases Option.some.inj done
  exact ⟨v,Machine.run_append reached ran,(stale_incumbent_yields (fun _ => ⟨3000,10⟩) [] reconnecting
    [.readable 0 .packet true] t evicting u v 1 1 newcomer reached finishing found owned stale false false evicts
    (Machine.run_single read) checks).1⟩

end Takeovers

end SrtLiveServer.PublisherAuth
