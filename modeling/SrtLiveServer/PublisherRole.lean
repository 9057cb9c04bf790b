import SrtLiveServer.Common
import SrtLiveServer.RingOwnership
import SrtLiveServer.Trace

/-! The authorization gate of a `CSLSPublisher`: the `on_connect` webhook with its
future and deadline, the paths that tear the role down, and `check_http_passed`,
which alone opens the gate. Each function reports the events the gate is about. -/
namespace SrtLiveServer.PublisherAuth
open Bytes

def httpAuthorizationDeadlineMs : Nat := 4000

structure AsyncHttpResponse where
  success : Bool
  statusCode : Int
deriving DecidableEq

inductive OnEvent where
  | connect
  | close
deriving DecidableEq

/-- A request in flight; its response once the webhook has answered. -/
structure HttpFuture where
  event : OnEvent
  response : Option AsyncHttpResponse
deriving DecidableEq

inductive RoleState where
  | uninit
  | inited
  | invalid
deriving DecidableEq

/-- Who drives the role: its listener, the list between them, a worker's role map,
the worker's list of roles waiting for a webhook, or nobody. -/
inductive Place where
  | listener
  | list
  | worker
  | waitHttp
  | dropped
deriving DecidableEq

structure Role where
  key : Text
  streamid : Text
  peerIp : Text
  peerPort : Nat
  httpUrl : Text
  httpPassed : Bool
  httpFuture : Option HttpFuture
  /-- `m_http_auth_deadline_ms`; 0 for none. -/
  deadline : Nat
  state : RoleState
  srt : Bool
  /-- `set_map_publisher` and `set_map_data` were called. -/
  bound : Bool
  ringAdded : Bool
  kickRequested : Bool
  place : Place
deriving DecidableEq

/-- What happens to publisher `p`; `passed` carries the deadline and the time
`check_http_passed` read. -/
inductive Event where
  | dispatched (p deadline : Nat)
  | completed (p : Nat) (event : OnEvent) (response : AsyncHttpResponse)
  | passed (p deadline now : Nat)
  | markedInvalid (p : Nat)
  | registered (p : Nat)
  | ringAdded (p : Nat)
  | put (p : Nat)
deriving DecidableEq

def Event.subject : Event → Nat
  | .dispatched p _ | .completed p _ _ | .passed p _ _ | .markedInvalid p => p
  | .registered p | .ringAdded p | .put p => p

def OnEvent.name : OnEvent → Text
  | .connect => ascii "on_connect"
  | .close => ascii "on_close"

def Role.onEventUrl (role : Role) (event : OnEvent) : Text :=
  role.httpUrl ++ ascii "?on_event=" ++ event.name ++ ascii "&role_name=" ++ urlEncode (ascii "publisher") ++
    ascii "&srt_url=" ++ urlEncode role.streamid ++ ascii "&remote_ip=" ++ role.peerIp ++
    ascii "&remote_port=" ++ ascii (toString role.peerPort)

def Role.accepted (key streamid peerIp : Text) (peerPort : Nat) : Role where
  key := key
  streamid := streamid
  peerIp := peerIp
  peerPort := peerPort
  httpUrl := []
  httpPassed := true
  httpFuture := none
  deadline := 0
  state := .inited
  srt := true
  bound := false
  ringAdded := false
  kickRequested := false
  place := .listener

def Role.setHttpUrl (role : Role) (url : Text) : Role :=
  if url = [] then role
  else {role with httpUrl := strlcpy url urlMaxLen,httpPassed := false,deadline := 0}

/-- `none` is the refusal of a URL that is too long or of a dispatch that `threw`. -/
def Role.onConnect (role : Role) (p : Nat) (threw : Bool) (now : Nat) : Option (Role × List Event) :=
  if role.httpUrl = [] then some (role,[])
  else if urlMaxLen ≤ (role.onEventUrl .connect).length || threw then none
  else
    let deadline := now + httpAuthorizationDeadlineMs
    some ({role with httpFuture := some ⟨.connect,none⟩,deadline := deadline},[.dispatched p deadline])

def Role.onClose (role : Role) : Role :=
  if !role.httpPassed || role.httpUrl = [] || urlMaxLen ≤ (role.onEventUrl .close).length then role
  else {role with httpFuture := some ⟨.close,none⟩}

def Role.invalidSrt (role : Role) : Role :=
  if role.srt then ({role with srt := false} : Role).onClose else role

def Role.markInvalid (role : Role) : Role := ({role with state := .invalid} : Role).invalidSrt

def Role.uninit (role : Role) : Role :=
  let idle := {role with httpFuture := none,deadline := 0}
  if idle.state = .uninit then idle else ({idle with state := .uninit} : Role).invalidSrt

/-- The ways out of `check_http_passed`, in the order of its tests. -/
inductive Check where
  | alreadyPassed
  | expired
  | unrequested
  | waiting
  | refused
  | authorized (deadline : Nat)
deriving DecidableEq

def Check.isOk : Check → Bool
  | .alreadyPassed | .authorized _ => true
  | _ => false

def Role.checkHttpPassed (role : Role) (now : Nat) : Check × Role :=
  if role.httpPassed then (.alreadyPassed,role)
  else if 0 < role.deadline ∧ role.deadline ≤ now then
    (.expired,({role with httpFuture := none,deadline := 0} : Role).markInvalid)
  else match role.httpFuture with
    | none => (.unrequested,({role with deadline := 0} : Role).markInvalid)
    | some ⟨_,none⟩ => (.waiting,role)
    | some ⟨_,some response⟩ =>
      let settled := {role with httpFuture := none,deadline := 0}
      if !response.success || response.statusCode ≠ 200 then (.refused,settled.invalidSrt)
      else (.authorized role.deadline,{settled with httpPassed := true})

def Check.events (check : Check) (p now : Nat) : List Event :=
  match check with
  | .expired | .unrequested => [.markedInvalid p]
  | .authorized deadline => [.passed p deadline now]
  | _ => []

inductive Received where
  | noData
  | peerGone
  | misaligned
  | overBitrate
  | packet
deriving DecidableEq

structure ReadResult where
  role : Role
  events : List Event
  ring : Bool
  ok : Bool

/-- `handler_read_data` of a role whose stream has a ring if `ring`, where a new
one fits the caps if `room`. -/
def Role.handlerReadData (role : Role) (p now : Nat) (received : Received) (ring room : Bool) : ReadResult :=
  let (check,checked) := role.checkHttpPassed now
  let seen := check.events p now
  if !check.isOk then ⟨checked,seen,ring,true⟩
  else if !checked.srt then ⟨checked,seen,ring,false⟩
  else match received with
    | .noData => ⟨checked,seen,ring,true⟩
    | .peerGone => ⟨checked,seen,ring,false⟩
    | .misaligned | .overBitrate => ⟨checked.invalidSrt,seen,ring,false⟩
    | .packet =>
      if !checked.bound then ⟨checked,seen,ring,false⟩
      else if checked.ringAdded then
        -- `put` fails where another role has removed the ring
        if ring then ⟨checked,seen ++ [.put p],ring,true⟩ else ⟨checked,seen,ring,false⟩
      else if RingOwnership.mapDataAdd ring room then ⟨{checked with ringAdded := true},seen ++ [.ringAdded p,.put p],true,true⟩
      else ⟨checked.invalidSrt,seen,ring,false⟩

/-- What the earlier events of a run must say for an event to be fine: the gate
opens on an observed success before the deadline, and admits only a role it has
opened for and never marked invalid. -/
def Justifies (past : List Event) : Event → Prop
  | .passed p deadline now =>
    .dispatched p deadline ∈ past ∧ .completed p .connect ⟨true,200⟩ ∈ past ∧ now < deadline
  | .registered p | .ringAdded p | .put p =>
    (∃ deadline now, .passed p deadline now ∈ past) ∧ .markedInvalid p ∉ past
  | _ => True

/-- The gate of publisher `p` agrees with what happened to it. -/
structure Role.Sound (p : Nat) (log : List Event) (role : Role) : Prop where
  opened : role.httpPassed = true → (∃ deadline now, .passed p deadline now ∈ log) ∧ .markedInvalid p ∉ log
  asked : role.httpPassed = false → ∀ future, role.httpFuture = some future →
    future.event = .connect ∧ 0 < role.deadline ∧ .dispatched p role.deadline ∈ log ∧ .markedInvalid p ∉ log ∧
      ∀ response, future.response = some response → .completed p .connect response ∈ log
  ring : role.ringAdded = true → .ringAdded p ∈ log

/-- A change of a role that the gate does not notice. -/
structure Role.Quiet (role next : Role) : Prop where
  passed : next.httpPassed = role.httpPassed
  ring : next.ringAdded = role.ringAdded
  future : role.httpPassed = false →
    next.httpFuture = none ∨ next.httpFuture = role.httpFuture ∧ next.deadline = role.deadline

theorem Role.Quiet.refl (role : Role) : role.Quiet role := ⟨rfl,rfl,fun _ => Or.inr ⟨rfl,rfl⟩⟩

theorem Role.Quiet.trans {first second third : Role} (before : first.Quiet second) (after : second.Quiet third) :
    first.Quiet third := by
  refine ⟨after.passed.trans before.passed,after.ring.trans before.ring,?_⟩
  intro shut
  rcases after.future (before.passed.trans shut) with gone | ⟨same,due⟩
  · exact Or.inl gone
  · rw [same,due]
    exact before.future shut

theorem Role.onClose_quiet (role : Role) : role.Quiet role.onClose := by
  unfold Role.onClose
  split
  · exact Role.Quiet.refl role
  · rename_i opened
    refine ⟨rfl,rfl,?_⟩
    intro shut
    simp [shut] at opened

theorem Role.invalidSrt_quiet (role : Role) : role.Quiet role.invalidSrt := by
  unfold Role.invalidSrt
  split
  · have closed : role.Quiet {role with srt := false} := ⟨rfl,rfl,fun _ => Or.inr ⟨rfl,rfl⟩⟩
    exact closed.trans (Role.onClose_quiet _)
  · exact Role.Quiet.refl role

theorem Role.markInvalid_quiet (role : Role) : role.Quiet role.markInvalid := by
  have marked : role.Quiet {role with state := .invalid} := ⟨rfl,rfl,fun _ => Or.inr ⟨rfl,rfl⟩⟩
  exact marked.trans (Role.invalidSrt_quiet _)

theorem Role.uninit_quiet (role : Role) : role.Quiet role.uninit := by
  unfold Role.uninit
  dsimp only
  split
  · exact ⟨rfl,rfl,fun _ => Or.inl rfl⟩
  · have idle : role.Quiet {role with httpFuture := none,deadline := 0,state := .uninit} :=
      ⟨rfl,rfl,fun _ => Or.inl rfl⟩
    exact idle.trans (Role.invalidSrt_quiet _)

theorem Role.Sound.quiet {p : Nat} {log : List Event} {role next : Role} (sound : role.Sound p log)
    (quiet : role.Quiet next) : next.Sound p log := by
  constructor
  · rw [quiet.passed]
    exact sound.opened
  · rw [quiet.passed]
    intro shut future requested
    rcases quiet.future shut with gone | ⟨same,due⟩
    · rw [gone] at requested
      cases requested
    · rw [same] at requested
      rw [due]
      exact sound.asked shut future requested
  · rw [quiet.ring]
    exact sound.ring

theorem Role.Sound.frame {p : Nat} {log added : List Event} {role : Role} (sound : role.Sound p log)
    (others : ∀ event ∈ added, event.subject ≠ p) : role.Sound p (log ++ added) := by
  have unmarked : .markedInvalid p ∉ added := fun marked => others _ marked rfl
  constructor
  · intro opened
    obtain ⟨⟨deadline,now,passed⟩,absent⟩ := sound.opened opened
    exact ⟨⟨deadline,now,List.mem_append_left _ passed⟩,List.not_mem_append absent unmarked⟩
  · intro shut future requested
    obtain ⟨connect,due,dispatched,absent,completed⟩ := sound.asked shut future requested
    exact ⟨connect,due,List.mem_append_left _ dispatched,List.not_mem_append absent unmarked,
      fun response ready => List.mem_append_left _ (completed response ready)⟩
  · exact fun added => List.mem_append_left _ (sound.ring added)

/-- What a step of publisher `p` from `role` to `next` owes the log. -/
structure Role.Advance (p : Nat) (log : List Event) (role next : Role) (added : List Event) : Prop where
  mine : ∀ event ∈ added, event.subject = p
  justified : Trace.Justified Justifies log added
  sound : next.Sound p (log ++ added)
  stays : role.httpPassed = true → next.httpPassed = true

theorem Role.Sound.advance {p : Nat} {log : List Event} {role next : Role} (sound : role.Sound p log)
    (quiet : role.Quiet next) : role.Advance p log next [] where
  mine := fun _ none => by cases none
  justified := trivial
  sound := by
    rw [List.append_nil]
    exact sound.quiet quiet
  stays := fun opened => quiet.passed.trans opened

theorem Role.Advance.quiet {p : Nat} {log added : List Event} {role next last : Role}
    (advance : role.Advance p log next added) (quiet : next.Quiet last) : role.Advance p log last added where
  mine := advance.mine
  justified := advance.justified
  sound := advance.sound.quiet quiet
  stays := fun opened => quiet.passed.trans (advance.stays opened)

theorem Role.Advance.admits {p : Nat} {log added : List Event} {role next : Role} {event : Event}
    (advance : role.Advance p log next added) (opened : next.httpPassed = true)
    (kind : event = .registered p ∨ event = .ringAdded p ∨ event = .put p) :
    role.Advance p log next (added ++ [event]) := by
  have fine := advance.sound.opened opened
  have mine : event.subject = p := by rcases kind with rfl | rfl | rfl <;> rfl
  have just : Justifies (log ++ added) event := by rcases kind with rfl | rfl | rfl <;> exact fine
  have unmarked : .markedInvalid p ∉ [event] := by rcases kind with rfl | rfl | rfl <;> simp
  refine ⟨?_,(Trace.justified_append log added [event]).mpr ⟨advance.justified,just,trivial⟩,?_,advance.stays⟩
  · intro other member
    rcases List.mem_append.mp member with earlier | later
    · exact advance.mine other earlier
    · rw [List.mem_singleton.mp later]
      exact mine
  · rw [← List.append_assoc]
    refine ⟨?_,?_,fun present => List.mem_append_left _ (advance.sound.ring present)⟩
    · intro _
      obtain ⟨⟨deadline,now,passed⟩,absent⟩ := fine
      exact ⟨⟨deadline,now,List.mem_append_left _ passed⟩,List.not_mem_append absent unmarked⟩
    · intro shut
      rw [opened] at shut
      cases shut

theorem Role.Sound.close {p : Nat} {log : List Event} {role next : Role} (sound : role.Sound p log)
    (shut : role.httpPassed = false) (passed : next.httpPassed = role.httpPassed)
    (ring : next.ringAdded = role.ringAdded) (idle : next.httpFuture = none) :
    role.Advance p log next [.markedInvalid p] where
  mine := List.forall_mem_singleton.mpr rfl
  justified := ⟨trivial,trivial⟩
  sound := by
    refine ⟨?_,?_,?_⟩
    · intro opened
      rw [passed,shut] at opened
      cases opened
    · intro _ future requested
      rw [idle] at requested
      cases requested
    · intro added
      exact List.mem_append_left _ (sound.ring (ring ▸ added))
  stays := fun opened => by
    rw [shut] at opened
    cases opened

theorem Role.markInvalid_shut (role : Role) (shut : role.httpPassed = false) :
    role.markInvalid.httpFuture = role.httpFuture ∨ role.markInvalid.httpFuture = none := by
  rcases (Role.markInvalid_quiet role).future shut with gone | ⟨same,_⟩
  · exact Or.inr gone
  · exact Or.inl same

theorem Role.Sound.markInvalid {p : Nat} {log : List Event} {role idle : Role} (sound : role.Sound p log)
    (shut : role.httpPassed = false) (passed : idle.httpPassed = role.httpPassed)
    (ring : idle.ringAdded = role.ringAdded) (none : idle.httpFuture = none) :
    role.Advance p log idle.markInvalid [.markedInvalid p] := by
  have quiet := Role.markInvalid_quiet idle
  refine sound.close shut (quiet.passed.trans passed) (quiet.ring.trans ring) ?_
  rcases Role.markInvalid_shut idle (passed.trans shut) with same | gone
  · rw [same,none]
  · exact gone

/-- Every way out of `check_http_passed` keeps the gate sound. -/
theorem Role.Sound.checkHttpPassed {p : Nat} {log : List Event} {role : Role} (sound : role.Sound p log) (now : Nat) :
    role.Advance p log (role.checkHttpPassed now).2 ((role.checkHttpPassed now).1.events p now) := by
  unfold Role.checkHttpPassed
  split
  · exact sound.advance (Role.Quiet.refl role)
  rename_i notPassed
  have shut : role.httpPassed = false := by simpa using notPassed
  split
  · exact sound.markInvalid shut rfl rfl rfl
  rename_i early
  split
  · rename_i unrequested
    exact sound.markInvalid shut rfl rfl unrequested
  · exact sound.advance (Role.Quiet.refl role)
  rename_i kind response requested
  obtain ⟨connect,due,dispatched,absent,completed⟩ := sound.asked shut _ requested
  have settled : role.Quiet {role with httpFuture := none,deadline := 0} := ⟨rfl,rfl,fun _ => Or.inl rfl⟩
  dsimp only
  split
  · exact sound.advance (settled.trans (Role.invalidSrt_quiet _))
  · rename_i accepted
    -- the deadline was positive and is still ahead, and the answer was 200
    have before : now < role.deadline := by
      by_contra late
      exact early ⟨due,Nat.le_of_not_lt late⟩
    have success : response = ⟨true,200⟩ := by
      cases response
      simpa using accepted
    have answered := completed response rfl
    rw [success] at answered
    refine ⟨List.forall_mem_singleton.mpr rfl,⟨⟨dispatched,answered,before⟩,trivial⟩,⟨?_,?_,?_⟩,fun _ => rfl⟩
    · intro _
      have unmarked : .markedInvalid p ∉ [Event.passed p role.deadline now] := by simp
      exact ⟨⟨role.deadline,now,List.mem_append_right _ (List.mem_singleton.mpr rfl)⟩,
        List.not_mem_append absent unmarked⟩
    · intro impossible
      cases impossible
    · exact fun added => List.mem_append_left _ (sound.ring added)

theorem Role.checkHttpPassed_isOk (role : Role) (now : Nat) (ok : (role.checkHttpPassed now).1.isOk = true) :
    (role.checkHttpPassed now).2.httpPassed = true := by
  unfold Role.checkHttpPassed at ok ⊢
  split at ok
  · rename_i opened
    rw [if_pos opened]
    exact opened
  rename_i shut
  rw [if_neg shut]
  split at ok
  · cases ok
  rename_i early
  rw [if_neg early]
  split at ok
  · cases ok
  · cases ok
  · dsimp only at ok ⊢
    split at ok
    · cases ok
    · rename_i accepted
      rw [if_neg accepted]

theorem Role.Advance.ringAdded {p : Nat} {log added : List Event} {role next : Role}
    (advance : role.Advance p log next added) (present : .ringAdded p ∈ log ++ added) :
    role.Advance p log {next with ringAdded := true} added where
  mine := advance.mine
  justified := advance.justified
  sound := ⟨advance.sound.opened,advance.sound.asked,fun _ => present⟩
  stays := advance.stays

theorem Role.Sound.handlerReadData {p : Nat} {log : List Event} {role : Role} (sound : role.Sound p log) (now : Nat)
    (received : Received) (ring room : Bool) :
    role.Advance p log (role.handlerReadData p now received ring room).role
      (role.handlerReadData p now received ring room).events := by
  have checked := sound.checkHttpPassed now
  have closing := Role.invalidSrt_quiet (role.checkHttpPassed now).2
  unfold Role.handlerReadData
  dsimp only
  split
  · exact checked
  rename_i ok
  have opened : (role.checkHttpPassed now).2.httpPassed = true :=
    Role.checkHttpPassed_isOk role now (by simpa using ok)
  split
  · exact checked
  cases received with
  | noData => exact checked
  | peerGone => exact checked
  | misaligned => exact checked.quiet closing
  | overBitrate => exact checked.quiet closing
  | packet =>
    dsimp only
    split
    · exact checked
    split
    · split
      · exact checked.admits opened (Or.inr (Or.inr rfl))
      · exact checked
    split
    · have ringed := checked.admits opened (Or.inr (Or.inl rfl))
      have recorded : .ringAdded p ∈ log ++ ((role.checkHttpPassed now).1.events p now ++ [.ringAdded p]) := by
        simp
      have put := (ringed.ringAdded recorded).admits opened (Or.inr (Or.inr rfl))
      rw [List.append_assoc] at put
      exact put
    · exact checked.quiet closing

section Socket

variable (role : Role)

theorem Role.onClose_kept : role.onClose.srt = role.srt ∧ role.onClose.state = role.state := by
  unfold Role.onClose
  split <;> exact ⟨rfl,rfl⟩

theorem Role.invalidSrt_closed : role.invalidSrt.srt = false ∧ role.invalidSrt.state = role.state := by
  unfold Role.invalidSrt
  split
  · exact Role.onClose_kept {role with srt := false}
  · rename_i closed
    exact ⟨eq_false_of_ne_true closed,rfl⟩

theorem Role.uninit_closed (live : role.state ≠ .uninit) : role.uninit.srt = false := by
  unfold Role.uninit
  dsimp only
  rw [if_neg live]
  exact (Role.invalidSrt_closed _).1

theorem Role.checkHttpPassed_socket (now : Nat) (live : role.state = .inited) :
    ((role.checkHttpPassed now).2.srt = true → role.srt = true) ∧ (role.checkHttpPassed now).2.state ≠ .uninit := by
  have closed : ∀ next : Role, next.state ≠ .uninit →
      (next.invalidSrt.srt = true → role.srt = true) ∧ next.invalidSrt.state ≠ .uninit := by
    intro next inited
    obtain ⟨shut,state⟩ := next.invalidSrt_closed
    rw [shut,state]
    exact ⟨fun opened => absurd opened Bool.false_ne_true,inited⟩
  have kept : role.state ≠ .uninit := by
    rw [live]
    decide
  unfold Role.checkHttpPassed
  split
  · exact ⟨id,kept⟩
  · split
    · exact closed _ RoleState.noConfusion
    · split
      · exact closed _ RoleState.noConfusion
      · exact ⟨id,kept⟩
      · dsimp only
        split
        · exact closed _ kept
        · exact ⟨id,kept⟩

end Socket

end SrtLiveServer.PublisherAuth
